import LispSession.Decimal.Shortest
/-!
# Numbers as text

A number is written with the fewest digits that read back, in positional notation however large or small it is:
whole numbers without a point, a leading zero before a fraction, a sign also for the negative zero.
-/
namespace LispSession

/-- The digits of a decimal without the zeros at their end. -/
def Decimal.significantDigits (x : Decimal) : List Char :=
  ((Nat.toDigits 10 x.coefficient).reverse.dropWhile (· == '0')).reverse

/-- A decimal in positional notation. -/
def Decimal.positional (x : Decimal) : List Char :=
  let digits := x.significantDigits
  let point : Int := ((Nat.toDigits 10 x.coefficient).length : Int) + x.exponent
  if point ≤ 0 then
    '0' :: '.' :: (List.replicate (-point).toNat '0' ++ digits)
  else if (digits.length : Int) ≤ point then
    digits ++ List.replicate (point.toNat - digits.length) '0'
  else digits.take point.toNat ++ '.' :: digits.drop point.toNat

/-- How a number is written. -/
def numberText (x : Float) : String :=
  let signed (negative : Bool) (text : String) := if negative then "-" ++ text else text
  match Binary64.ofFloat x with
  | .nan => "NaN"
  | .infinite negative => signed negative "inf"
  | .finite negative 0 _ => signed negative "0"
  | .finite negative m q => signed negative (String.ofList (shortestDecimal m q).positional)

end LispSession
