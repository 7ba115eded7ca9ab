/-!
# Classes of code points

A class of characters that follows no simple rule is held as the sorted list of the code points at which membership
changes: the first bound is the first member, the second the first code point after it that is none, and so on.
-/
namespace LispSession

/-- Whether a character is in the class with these bounds: an odd number of them lies at or below it. -/
def inBounds (bounds : Array Nat) (c : Char) : Bool :=
  bounds.foldl (fun inside bound => if bound ≤ c.toNat then !inside else inside) false

end LispSession
