import LispSession.Proofs.Decimal.Nearest
import LispSession.Decimal.Shortest
/-!
# The shortest decimal reads back

What `onGrid?` finds on a grid of decimals lies in the interval of the double (`onGrid?_readsAs`).  With 17 digits the
grid is finer than the interval is wide, so that one of the two neighbours of the double on it lies inside, and the
search never comes to its end empty-handed (`shortestDecimal_readsAs`).
-/
namespace LispSession

theorem pow_toNat_div (b : ℚ) (k : Int) : b ^ k.toNat / b ^ (-k).toNat = b ^ k := by
  obtain ⟨n, rfl | rfl⟩ := k.eq_nat_or_neg
  · simp
  · simp

theorem lt_pow_length_toDigits (n : Nat) : n < 10 ^ (Nat.toDigits 10 n).length :=
  (Nat.length_toDigits_le_iff (by decide) Nat.length_toDigits_pos).1 (Nat.le_refl _)

theorem pow_length_toDigits_le {n : Nat} (hn : 0 < n) : 10 ^ ((Nat.toDigits 10 n).length - 1) ≤ n := by
  rcases Nat.eq_zero_or_pos ((Nat.toDigits 10 n).length - 1) with h0 | hk
  · rw [h0]
    exact hn
  · rw [← not_lt, ← Nat.length_toDigits_le_iff (by decide) hk]
    omega

namespace Decimal

open Binary64

/-- The number that a decimal denotes. -/
def value (x : Decimal) : ℚ := x.coefficient * 10 ^ x.exponent

theorem magnitude_le {m : Nat} (hm : 0 < m) (q : Int) : (10 : ℚ) ^ (magnitude m q - 1) ≤ m * 2 ^ q := by
  have hd : 0 < Nat.pow 2 (-q).toNat := Nat.two_pow_pos _
  have hn : 0 < m * Nat.pow 2 q.toNat := Nat.mul_pos hm (Nat.two_pow_pos _)
  have hvalue : (m : ℚ) * 2 ^ q = ((m * Nat.pow 2 q.toNat : Nat) : ℚ) / ((Nat.pow 2 (-q).toNat : Nat) : ℚ) := by
    rw [← pow_toNat_div 2 q]
    push_cast [Nat.pow_eq]
    ring
  rw [hvalue]
  unfold magnitude
  dsimp only
  generalize m * Nat.pow 2 q.toNat = n at *
  generalize Nat.pow 2 (-q).toNat = d at *
  have hdq : (0 : ℚ) < d := by exact_mod_cast hd
  have hnq : (0 : ℚ) < n := by exact_mod_cast hn
  split
  · next h =>
    -- At least one before the point: the digits of the whole part are counted.
    have hpos := Nat.length_toDigits_pos (b := 10) (n := n / d)
    have hge := pow_length_toDigits_le (Nat.div_pos h hd)
    rw [← Nat.cast_one, ← Nat.cast_sub hpos, zpow_natCast, le_div_iff₀ hdq]
    exact_mod_cast (Nat.le_div_iff_mul_le hd).1 hge
  · next h =>
    have hlt := lt_pow_length_toDigits (d / n)
    rw [show (1 : Int) - (Nat.toDigits 10 (d / n)).length - 1 = -((Nat.toDigits 10 (d / n)).length : Int) by ring,
      zpow_neg, zpow_natCast, inv_le_comm₀ (by positivity) (by positivity), inv_div, div_le_iff₀ hnq]
    exact_mod_cast ((Nat.div_lt_iff_lt_mul hn).1 hlt).le

section Grid

variable {m : Nat} {q g : Int}

/-- The factor of the binary side in `onGrid?`. -/
def binaryUnit (q g : Int) : Nat := Nat.pow 2 (q - 2).toNat * Nat.pow 10 (-g).toNat

/-- The factor of the decimal side. -/
def decimalUnit (q g : Int) : Nat := Nat.pow 10 g.toNat * Nat.pow 2 (2 - q).toNat

/-- How far the interval reaches below, in quarters of the last place. -/
def quartersBelow (m : Nat) (q : Int) : Nat := if m == leadingBit && leastExponent < q then 1 else 2

/-- Whether a point of the grid lies in the interval. -/
def isInside (m : Nat) (q g : Int) (c : Nat) : Bool :=
  if m % 2 == 0 then
    (4 * m - quartersBelow m q) * binaryUnit q g ≤ c * decimalUnit q g && c * decimalUnit q g ≤
      (4 * m + 2) * binaryUnit q g
  else (4 * m - quartersBelow m q) * binaryUnit q g < c * decimalUnit q g && c * decimalUnit q g <
    (4 * m + 2) * binaryUnit q g

theorem onGrid?_eq (m : Nat) (q g : Int) :
    onGrid? m q g =
      let below := 4 * m * binaryUnit q g / decimalUnit q g
      match isInside m q g below, isInside m q g (below + 1) with
      | false, false => none
      | true, false => some below
      | false, true => some (below + 1)
      | true, true =>
        some (if 2 * (4 * m * binaryUnit q g) < (below + (below + 1)) * decimalUnit q g then below else below + 1) :=
          rfl

theorem binaryUnit_pos (q g : Int) : 0 < binaryUnit q g := Nat.mul_pos (Nat.two_pow_pos _) (Nat.pow_pos (by decide))

theorem decimalUnit_pos (q g : Int) : 0 < decimalUnit q g := Nat.mul_pos (Nat.pow_pos (by decide)) (Nat.two_pow_pos _)

theorem decimalUnit_eq (q g : Int) : (decimalUnit q g : ℚ) = 4 * (10 ^ g / 2 ^ q) * binaryUnit q g := by
  have hbinary : (binaryUnit q g : ℚ) = 2 ^ (q - 2).toNat * 10 ^ (-g).toNat := by
    push_cast [binaryUnit, Nat.pow_eq]; rfl
  have hdecimal : (decimalUnit q g : ℚ) = 10 ^ g.toNat * 2 ^ (-(q - 2)).toNat := by
    rw [neg_sub]
    push_cast [decimalUnit, Nat.pow_eq]
    rfl
  have hfour : (4 : ℚ) / 2 ^ q = (2 ^ (q - 2))⁻¹ := by
    rw [zpow_sub₀ two_ne_zero]
    norm_num
  rw [hbinary, hdecimal, mul_div_left_comm, hfour, ← pow_toNat_div 2 (q - 2),
    ← pow_toNat_div 10 g]
  field_simp

theorem quartersBelow_eq (m : Nat) (q : Int) : (quartersBelow m q : ℚ) = 4 * reach m q := by
  unfold quartersBelow reach
  by_cases h : m = leadingBit ∧ leastExponent < q
  · rw [if_pos h, if_pos (by simpa using h)]
    norm_num
  · rw [if_neg h, if_neg (by simpa using h)]
    norm_num

theorem isInside_iff (hm : 0 < m) (c : Nat) : isInside m q g c = true ↔ ReadsAs (c * 10 ^ g) m q := by
  have hbinary : (0 : ℚ) < binaryUnit q g := by exact_mod_cast binaryUnit_pos q g
  have hpoint : ((c * decimalUnit q g : Nat) : ℚ) = 4 * (c * 10 ^ g / 2 ^ q) * binaryUnit q g := by
    push_cast
    rw [decimalUnit_eq]
    ring
  have hquarters : quartersBelow m q ≤ 4 * m := by
    unfold quartersBelow
    split <;> omega
  have hlow : (((4 * m - quartersBelow m q) * binaryUnit q g : Nat) : ℚ) = 4 * (m - reach m q) * binaryUnit q g := by
    push_cast [hquarters]
    rw [quartersBelow_eq]
    ring
  have hhigh : (((4 * m + 2) * binaryUnit q g : Nat) : ℚ) = 4 * (m + 1 / 2) * binaryUnit q g := by
    push_cast
    ring
  unfold isInside ReadsAs
  by_cases he : m % 2 = 0
  · rw [if_pos he, if_pos (by simpa using he), Bool.and_eq_true, decide_eq_true_iff, decide_eq_true_iff,
      ← Nat.cast_le (α := ℚ), ← Nat.cast_le (α := ℚ), hpoint, hlow, hhigh, mul_le_mul_iff_of_pos_right hbinary,
      mul_le_mul_iff_of_pos_right hbinary, mul_le_mul_iff_of_pos_left four_pos, mul_le_mul_iff_of_pos_left four_pos]
  · rw [if_neg he, if_neg (by simpa using he), Bool.and_eq_true, decide_eq_true_iff, decide_eq_true_iff,
      ← Nat.cast_lt (α := ℚ), ← Nat.cast_lt (α := ℚ), hpoint, hlow, hhigh, mul_lt_mul_iff_of_pos_right hbinary,
      mul_lt_mul_iff_of_pos_right hbinary, mul_lt_mul_iff_of_pos_left four_pos, mul_lt_mul_iff_of_pos_left four_pos]

theorem onGrid?_readsAs (hm : 0 < m) {c : Nat} (h : onGrid? m q g = some c) : ReadsAs (c * 10 ^ g) m q := by
  rw [onGrid?_eq] at h
  dsimp only at h
  rw [← isInside_iff hm]
  split at h
  · cases h
  · next hb _ => cases h; exact hb
  · next _ ha => cases h; exact ha
  · next hb ha =>
    cases h
    split
    · exact hb
    · exact ha

/-- A grid that is finer than the interval is wide has a point in it. -/
theorem onGrid?_isSome (hm : 0 < m) (hfine : (10 : ℚ) ^ g / 2 ^ q < 1 / 2 + reach m q) : onGrid? m q g ≠ none := by
  have hr : 0 < reach m q := by unfold reach; split <;> norm_num
  have hbinary : (0 : ℚ) < binaryUnit q g := by exact_mod_cast binaryUnit_pos q g
  have hdecimal := decimalUnit_pos q g
  have hstep := decimalUnit_eq q g
  have hpoint (c : Nat) : (c : ℚ) * 10 ^ g / 2 ^ q = c * (10 ^ g / 2 ^ q) := by ring
  rw [onGrid?_eq]
  dsimp only
  generalize hB : 4 * m * binaryUnit q g / decimalUnit q g = B
  have hbelow : (B : ℚ) * decimalUnit q g ≤ 4 * m * binaryUnit q g := by
    exact_mod_cast hB ▸ Nat.div_mul_le_self (4 * m * binaryUnit q g) (decimalUnit q g)
  have habove : 4 * m * binaryUnit q g < ((B + 1 : Nat) : ℚ) * decimalUnit q g := by
    exact_mod_cast hB ▸ Nat.lt_mul_of_div_lt (Nat.lt_succ_self _) hdecimal
  have hinside : isInside m q g B = true ∨ isInside m q g (B + 1) = true := by
    rw [isInside_iff hm, isInside_iff hm, ReadsAs, ReadsAs, hpoint, hpoint]
    rw [hstep] at hbelow habove
    generalize (10 : ℚ) ^ g / 2 ^ q = t at *
    -- The double lies between its two neighbours on the grid, and these are not both outside.
    have hbelow : (B : ℚ) * t ≤ m := by
      refine le_of_mul_le_mul_right ?_ (mul_pos four_pos hbinary)
      linarith
    have habove : (m : ℚ) < (B + 1 : Nat) * t := by
      refine lt_of_mul_lt_mul_right ?_ (mul_pos four_pos hbinary).le
      linarith
    have hgap : ((B + 1 : Nat) : ℚ) * t = B * t + t := by push_cast; ring
    rw [hgap] at habove ⊢
    by_cases he : m % 2 = 0
    · rw [if_pos he, if_pos he]
      by_cases hlow : (m : ℚ) - reach m q ≤ B * t
      · exact .inl ⟨hlow, by linarith⟩
      · exact .inr ⟨by linarith, by linarith⟩
    · rw [if_neg he, if_neg he]
      by_cases hlow : (m : ℚ) - reach m q < B * t
      · exact .inl ⟨hlow, by linarith⟩
      · exact .inr ⟨by linarith, by linarith⟩
  obtain h | h := hinside
  · rw [h]
    cases isInside m q g (B + 1) <;> nofun
  · rw [h]
    cases isInside m q g B <;> nofun

end Grid

/-- **Seventeen digits are enough**: the grid is finer than the interval is wide. -/
theorem fine_enough {m : Nat} {q : Int} (hc : Canonical m q) :
    (10 : ℚ) ^ (magnitude m q - 17) / 2 ^ q < 1 / 2 + reach m q := by
  have hpow : (0 : ℚ) < 2 ^ q := by positivity
  have hsplit : (10 : ℚ) ^ (magnitude m q - 17) = 10 ^ (magnitude m q - 1) / 10 ^ (16 : Nat) := by
    rw [show magnitude m q - 17 = magnitude m q - 1 - (16 : Nat) by push_cast; ring, zpow_sub₀ (by norm_num),
      zpow_natCast]
  have hle : (10 : ℚ) ^ (magnitude m q - 17) / 2 ^ q ≤ m / 10 ^ (16 : Nat) := by
    rw [hsplit, div_div, mul_comm, ← div_div]
    gcongr
    rw [div_le_iff₀ hpow]
    exact magnitude_le hc.pos q
  refine hle.trans_lt ?_
  unfold reach
  split
  · next h =>
    rw [h.1]
    norm_num [leadingBit]
  · have hlt : (m : ℚ) < (2 * leadingBit : Nat) := by exact_mod_cast hc.lt
    rw [div_lt_iff₀ (by norm_num)]
    refine hlt.trans ?_
    norm_num [leadingBit]

theorem search_readsAs {m : Nat} {q : Int} (hc : Canonical m q) :
    ∀ tries digits : Nat, tries + digits = 18 → 0 < tries →
      ReadsAs (search m q (magnitude m q) tries digits).value m q
  | tries + 1, digits, hsum, _ => by
    rw [search]
    split
    · next c h => exact onGrid?_readsAs hc.pos h
    · next h =>
      rcases Nat.eq_zero_or_pos tries with rfl | htries
      · obtain rfl : digits = 17 := by omega
        exact absurd h (onGrid?_isSome hc.pos (fine_enough hc))
      · exact search_readsAs hc tries (digits + 1) (by omega) htries

end Decimal

/-- **The shortest decimal reads back.** -/
theorem shortestDecimal_readsAs {m : Nat} {q : Int} (hc : Binary64.Canonical m q) :
    Binary64.ReadsAs (shortestDecimal m q).value m q := Decimal.search_readsAs hc 17 1 rfl (by decide)

end LispSession
