/-!
# Spans

A span is a stretch of a text, counted in bytes.  Offsets are machine words, so whatever is computed from them is taken
modulo `2 ^ 64`; where a text was recorded it never comes to that.
-/
namespace LispSession

/-- A stretch of text: where it starts and how many bytes it takes. -/
structure Span where
  start : Nat
  length : Nat
  deriving DecidableEq, Repr

namespace Span

/-- How many offsets there are: `2 ^ 64`. -/
def offsets : Nat := 0x10000000000000000

/-- The first offset after the span. -/
def stop (s : Span) : Nat := (s.start + s.length) % offsets

/-- From one offset up to another; empty if the second lies before the first. -/
def between (first last : Nat) : Span := ⟨first, last - first⟩

/-- From one offset up to and including another. -/
def through (first last : Nat) : Span := between first ((last + 1) % offsets)

/-- The one byte at an offset. -/
def single (offset : Nat) : Span := ⟨offset, 1⟩

/-- The offset `size` bytes before `offset`. -/
def stepBack (offset size : Nat) : Nat :=
  if size ≤ offset then offset - size else offset + offsets - size

end Span

end LispSession
