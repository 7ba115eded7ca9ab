import LispSession.Decimal.Binary64
/-!
# The fewest digits that read back

Around a double lies the interval of numbers that read as that double: half way to each neighbour,
the ends included when the significand is even.  `shortestDecimal` looks for a decimal in that interval with one
digit, then two, and so on: on each grid of decimals only the two neighbours of the double itself can be the nearest
ones inside.  The first grid with a hit wins, of two hits the nearer, and the upper one when they are equally near.
Everything is compared on integers, after multiplying out the powers of two and ten.
-/
namespace LispSession

/-- A decimal: `coefficient * 10 ^ exponent`. -/
structure Decimal where
  coefficient : Nat
  exponent : Int
  deriving DecidableEq, Repr

namespace Decimal

/-- The least number of decimal places before the point that holds `m * 2 ^ q`: the number is below
`10 ^ magnitude` and not below `10 ^ (magnitude - 1)`. -/
def magnitude (m : Nat) (q : Int) : Int :=
  let n := m * Nat.pow 2 q.toNat
  let d := Nat.pow 2 (-q).toNat
  if d ≤ n then (Nat.toDigits 10 (n / d)).length
  else 1 - ((Nat.toDigits 10 (d / n)).length : Int)

/-- The decimal on the grid of `10 ^ g` that reads back as `m * 2 ^ q` and is nearest to it, if the grid has one.
Quarters of the last binary place are the unit, so that both ends of the interval are whole. -/
def onGrid? (m : Nat) (q : Int) (g : Int) : Option Nat :=
  let binary := Nat.pow 2 (q - 2).toNat * Nat.pow 10 (-g).toNat
  let decimal := Nat.pow 10 g.toNat * Nat.pow 2 (2 - q).toNat
  let value := 4 * m * binary
  let low := (4 * m - (if m == Binary64.leadingBit && Binary64.leastExponent < q then 1 else 2)) * binary
  let high := (4 * m + 2) * binary
  let inside (c : Nat) : Bool :=
    if m % 2 == 0 then low ≤ c * decimal && c * decimal ≤ high
    else low < c * decimal && c * decimal < high
  let below := value / decimal
  let above := below + 1
  match inside below, inside above with
  | false, false => none
  | true, false => some below
  | false, true => some above
  | true, true => some (if 2 * value < (below + above) * decimal then below else above)

/-- Look on the grids of `digits`, `digits + 1`, … digits, `tries` of them. -/
def search (m : Nat) (q : Int) (top : Int) : (tries digits : Nat) → Decimal
  | 0, _ => ⟨m * Nat.pow 2 q.toNat, 0⟩
  | tries + 1, digits =>
    let g := top - digits
    match onGrid? m q g with
    | some c => ⟨c, g⟩
    | none => search m q top tries (digits + 1)

end Decimal

/-- The shortest decimal that reads back as `m * 2 ^ q`.  Seventeen digits always suffice. -/
def shortestDecimal (m : Nat) (q : Int) : Decimal :=
  Decimal.search m q (Decimal.magnitude m q) 17 1

end LispSession
