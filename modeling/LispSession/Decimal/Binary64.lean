/-!
# Doubles, exactly

A finite double is `significand * 2 ^ exponent` with a significand below `2 ^ 53`.  This module takes
a double apart into these two integers, and goes the other way from any ratio of natural numbers:
`nearestBits` is the double nearest to the ratio, a half going to the even significand, and infinity
from the middle of the last gap on.  Both work on integers only, so no rounding hides in them.
-/
namespace LispSession

/-- A double taken apart. -/
inductive Binary64 where
  | nan
  | infinite (negative : Bool)
  | finite (negative : Bool) (significand : Nat) (exponent : Int)

namespace Binary64

/-- The exponent of the smallest doubles. -/
def leastExponent : Int := -1074

/-- The least significand of a double that is not among the smallest: `2 ^ 52`. -/
def leadingBit : Nat := 0x10000000000000

/-- The bit of the sign: `2 ^ 63`. -/
def signBit : Nat := 0x8000000000000000

/-- The bits of positive infinity. -/
def infinityBits : Nat := 0x7FF * leadingBit

/-- The sign, significand and exponent that the bits of a double hold. -/
def ofBits (bits : UInt64) : Binary64 :=
  let n := bits.toNat
  let negative : Bool := n / signBit == 1
  let field : Nat := n / leadingBit % 2048
  let fraction : Nat := n % leadingBit
  if field == 2047 then
    if fraction == 0 then .infinite negative else .nan
  else if field == 0 then .finite negative fraction leastExponent
  else .finite negative (leadingBit + fraction) ((field : Int) - 1075)

/-- A double taken apart. -/
def ofFloat (x : Float) : Binary64 := ofBits x.toBits

end Binary64

/-- The integer nearest to `n / d`, a half going to the even one. -/
def roundHalfEven (n d : Nat) : Nat :=
  let q := n / d
  let r := n % d
  if 2 * r < d || (2 * r == d && q % 2 == 0) then q else q + 1

/-- `2 ^ e ≤ n / d`, for a power of either sign. -/
def powerLeRatio (e : Int) (n d : Nat) : Bool :=
  d * Nat.pow 2 e.toNat ≤ n * Nat.pow 2 (-e).toNat

namespace Binary64

/-- The exponent at which `n / d` has a significand of 53 bits, or the least one there is. -/
def exponentOf (n d : Nat) : Int :=
  let e := (n.log2 : Int) - d.log2
  let e := if powerLeRatio e n d then e else e - 1
  max (e - 52) leastExponent

/-- The bits of the double nearest to `n / d`, without sign. -/
def nearestBits (n d : Nat) : Nat :=
  if n == 0 then 0
  else
    let e := exponentOf n d
    let m := roundHalfEven (n * Nat.pow 2 (-e).toNat) (d * Nat.pow 2 e.toNat)
    let bits := if m < leadingBit then m else (e + 1075).toNat * leadingBit + (m - leadingBit)
    min bits infinityBits

/-- The double with the given sign and bits. -/
def toFloat (negative : Bool) (bits : Nat) : Float :=
  Float.ofBits (((if negative then signBit else 0) + bits).toUInt64)

end Binary64

end LispSession
