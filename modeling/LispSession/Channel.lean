import LispSession.Text.Utf8
/-!
# Channels

A channel takes what a session writes, or part of it, or nothing.  How it answers may depend on everything that was
offered before, which its history sums up; a session never looks into that, it only sees whether a write or a flush
succeeded.  `Limits.policy` is the family of channels that are full after so many bytes.
-/
namespace LispSession

/-- What a channel has gone through. -/
structure Channel.History where
  accepted : Nat := 0
  writes : Nat := 0
  flushes : Nat := 0
  failures : Nat := 0

/-- The answer to a write: all of it was taken, or so many bytes of it before the given failure. -/
inductive Channel.Reply where
  | whole
  | cut (taken : Nat) (why : String)

/-- How a channel answers a write of so many bytes, and a flush. -/
structure Channel.Policy where
  write : Channel.History → Nat → Channel.Reply
  flush : Channel.History → Option String

/-- A place to write to. -/
structure Channel where
  policy : Channel.Policy
  history : Channel.History := {}

namespace Channel

/-- A channel that takes everything. -/
def healthy : Channel := ⟨⟨fun _ _ => .whole, fun _ => none⟩, {}⟩

/-- Offer a text: how many of its bytes are taken, and why not all of them.  Nothing at all is always taken. -/
def write (c : Channel) (text : String) : Channel × Nat × Option String :=
  let size := text.utf8ByteSize
  if size == 0 then (c, 0, none)
  else
    let h := c.history
    match c.policy.write h size with
    | .whole => ({ c with history := { h with accepted := h.accepted + size, writes := h.writes + 1 } }, size, none)
    | .cut taken why =>
      let taken := min taken size
      let history :=
        { h with accepted := h.accepted + taken, writes := h.writes + 1, failures := h.failures + 1 }
      ({ c with history }, taken, some why)

/-- Flush: why it fails, if it does. -/
def flush (c : Channel) : Channel × Option String :=
  ({ c with history := { c.history with flushes := c.history.flushes + 1 } }, c.policy.flush c.history)

end Channel

/-- A channel that is full after `limit` bytes: a longer write is cut there, and every later one fails, or only the
first one where the channel heals.  Flushing may be out of order altogether. -/
structure Limits where
  limit : Option Nat := none
  heals : Bool := false
  flushFails : Bool := false

namespace Limits

def policy (l : Limits) : Channel.Policy where
  write h size :=
    match l.limit with
    | none => .whole
    | some limit =>
      if l.heals && h.failures != 0 then .whole
      else if h.accepted + size ≤ limit then .whole
      else .cut (limit - h.accepted) "channel full"
  flush _ := if l.flushFails then some "flush failed" else none

def channel (l : Limits) : Channel := ⟨l.policy, {}⟩

end Limits

end LispSession
