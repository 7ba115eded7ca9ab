import LispSession.Decimal.Binary64
/-!
# Numerals

A numeral is an optional sign, digits with at most one point among them (at least one digit), and an
optional power of ten.  `Numeral.parse?` reads one from a whole word; `Numeral.toFloat` is the double
nearest to what it denotes.
-/
namespace LispSession

/-- A decimal number: `coefficient * 10 ^ exponent`, with its sign. -/
structure Numeral where
  negative : Bool
  coefficient : Nat
  exponent : Int
  deriving DecidableEq, Repr

namespace Numeral

/-- The number that a row of digits denotes. -/
def digitsValue (digits : List Char) : Nat :=
  digits.foldl (fun n c => n * 10 + (c.toNat - '0'.toNat)) 0

/-- A sign, if there is one, and what follows it. -/
def takeSign : List Char → Bool × List Char
  | '-' :: cs => (true, cs)
  | '+' :: cs => (false, cs)
  | cs => (false, cs)

/-- The power of ten at the end of a numeral: nothing, or `e`, an optional sign and digits. -/
def exponent? : List Char → Option Int
  | [] => some 0
  | c :: cs =>
    if c == 'e' || c == 'E' then
      let (negative, digits) := takeSign cs
      if digits.isEmpty || !digits.all Char.isDigit then none
      else
        let n : Int := digitsValue digits
        some (if negative then -n else n)
    else none

/-- The digits after a point, if there is one, and what follows them. -/
def takeFraction : List Char → List Char × List Char
  | '.' :: cs => (cs.takeWhile Char.isDigit, cs.dropWhile Char.isDigit)
  | cs => ([], cs)

/-- The numeral that a word spells, if it spells one. -/
def parse? (word : List Char) : Option Numeral :=
  let (negative, cs) := takeSign word
  let whole := cs.takeWhile Char.isDigit
  let (fraction, cs) := takeFraction (cs.dropWhile Char.isDigit)
  if whole.isEmpty && fraction.isEmpty then none
  else
    (exponent? cs).map fun e =>
      ⟨negative, digitsValue (whole ++ fraction), e - fraction.length⟩

/-- The bits of the nearest double, without sign.  Powers of ten that put the number past every double,
or below half of the least one, are decided without computing the power. -/
def magnitudeBits (x : Numeral) : Nat :=
  if x.coefficient == 0 then 0
  else
    let top := ((Nat.toDigits 10 x.coefficient).length : Int) + x.exponent
    if 310 < top then Binary64.infinityBits
    else if top < -330 then 0
    else
      Binary64.nearestBits (x.coefficient * Nat.pow 10 x.exponent.toNat) (Nat.pow 10 (-x.exponent).toNat)

/-- The double nearest to a numeral. -/
def toFloat (x : Numeral) : Float := Binary64.toFloat x.negative x.magnitudeBits

end Numeral

end LispSession
