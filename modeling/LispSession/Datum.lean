/-!
# Data

A datum is what a piece of source text denotes: an atom, or a pair of data.  Lists are chains of pairs that end
in `nil`; a dotted list ends in something else.  Data have no identity: two equal texts denote the same datum.
-/
namespace LispSession

/-- What source text denotes. -/
inductive Datum where
  | nil
  | bool (b : Bool)
  | num (x : Float)
  | str (text : String)
  | sym (name : String)
  | pair (car cdr : Datum)

namespace Datum

/-- The pairs of the items, last item first, put in front of a tail. -/
def onto (tail : Datum) (reversed : List Datum) : Datum :=
  reversed.foldl (fun rest item => .pair item rest) tail

/-- The list of the given items. -/
def ofList (items : List Datum) : Datum := onto .nil items.reverse

/-- A datum written after a quote mark. -/
def quoted (d : Datum) : Datum := .pair (.sym "quote") (.pair d .nil)

/-- The elements of a proper list; a dotted list and an atom other than `nil` have none. -/
def toList? : Datum → Option (List Datum)
  | .nil => some []
  | .pair car cdr => (toList? cdr).map (car :: ·)
  | _ => none

end Datum

end LispSession
