import LispSession.Decimal.Binary64
import Mathlib.Algebra.Order.Field.Rat
import Mathlib.Algebra.Order.Archimedean.Basic
import Mathlib.Algebra.Order.Field.Power
import Mathlib.Tactic.Linarith
import Mathlib.Tactic.Positivity
import Mathlib.Tactic.FieldSimp
import Mathlib.Tactic.Ring
/-!
# The nearest double

The numbers that read as a given double form an interval around it, `ReadsAs`: half a unit of the last place to both
sides, the ends included where the significand is even, and half of that below a power of two, where the doubles are
closer.  `nearestBits` gives every ratio in the interval the bits of the double (`nearestBits_of_readsAs`).
-/
namespace LispSession

theorem scaled_ratio (n d : Nat) (e : Int) :
    ((n * Nat.pow 2 (-e).toNat : Nat) : ℚ) / ((d * Nat.pow 2 e.toNat : Nat) : ℚ) = (n : ℚ) / d / 2 ^ e := by
  obtain ⟨k, rfl | rfl⟩ := e.eq_nat_or_neg
  · simp [div_div]
  · simp [mul_div_right_comm]

theorem powerLeRatio_iff {n d : Nat} (hd : 0 < d) (e : Int) :
    powerLeRatio e n d = true ↔ (2 : ℚ) ^ e ≤ (n : ℚ) / d := by
  have hD : 0 < d * Nat.pow 2 e.toNat := Nat.mul_pos hd (Nat.two_pow_pos _)
  have hpow : (0 : ℚ) < 2 ^ e := by positivity
  rw [powerLeRatio, decide_eq_true_iff, ← one_le_div hpow, ← scaled_ratio, one_le_div (by exact_mod_cast hD),
    Nat.cast_le]

/-- Half up and half down: the integer that `x` is nearest to, a half going to an even one. -/
def RoundsTo (x : ℚ) (m : Nat) : Prop :=
  if m % 2 = 0 then (m : ℚ) - 1 / 2 ≤ x ∧ x ≤ m + 1 / 2 else (m : ℚ) - 1 / 2 < x ∧ x < m + 1 / 2

theorem roundHalfEven_eq {N D m : Nat} (hD : 0 < D) (h : RoundsTo ((N : ℚ) / D) m) : roundHalfEven N D = m := by
  have hDq : (0 : ℚ) < D := by exact_mod_cast hD
  have hmod : N % D < D := Nat.mod_lt N hD
  have hratio : (N : ℚ) / D = (N / D : Nat) + ((N % D : Nat) : ℚ) / D := by
    rw [div_eq_iff hDq.ne', add_mul, div_mul_cancel₀ _ hDq.ne']
    exact_mod_cast (Nat.div_add_mod' N D).symm
  unfold RoundsTo at h
  unfold roundHalfEven
  dsimp only
  generalize N / D = k at *
  generalize N % D = r at *
  -- What is behind the point decides between `k` and `k + 1`.
  have hlt : (r : ℚ) / D < 1 := by rw [div_lt_one hDq]; exact_mod_cast hmod
  have hge : 0 ≤ (r : ℚ) / D := by positivity
  have hup : (1 / 2 : ℚ) ≤ (r : ℚ) / D ↔ D ≤ 2 * r := by
    rw [le_div_iff₀ hDq, ← Nat.cast_le (α := ℚ)]
    push_cast
    constructor <;> intro h <;> linarith
  have hdown : (r : ℚ) / D ≤ 1 / 2 ↔ 2 * r ≤ D := by
    rw [div_le_iff₀ hDq, ← Nat.cast_le (α := ℚ)]
    push_cast
    constructor <;> intro h <;> linarith
  rw [hratio] at h
  generalize (r : ℚ) / D = t at *
  have hbounds : (m : ℚ) - 1 / 2 ≤ k + t ∧ k + t ≤ m + 1 / 2 := by
    split at h
    · exact h
    · exact ⟨h.1.le, h.2.le⟩
  have hk₁ : k ≤ m := by
    have : (k : ℚ) < m + 1 := by linarith
    exact Nat.lt_succ_iff.1 (by exact_mod_cast this)
  have hk₂ : m ≤ k + 1 := by
    have : (m : ℚ) < k + 2 := by linarith
    have : m < k + 2 := by exact_mod_cast this
    omega
  obtain rfl | rfl : k = m ∨ m = k + 1 := by omega
  · have hr : 2 * r ≤ D := hdown.1 (by linarith)
    by_cases he : k % 2 = 0
    · rw [if_pos (by simp only [Bool.or_eq_true, decide_eq_true_eq, Bool.and_eq_true, beq_iff_eq]; omega)]
    · rw [if_neg he] at h
      have hr' : ¬ D ≤ 2 * r := fun hr' => absurd (hup.2 hr') (by linarith)
      rw [if_pos (by simp only [Bool.or_eq_true, decide_eq_true_eq, Bool.and_eq_true, beq_iff_eq]; omega)]
  · have hr : D ≤ 2 * r := hup.1 (by push_cast at hbounds; linarith)
    by_cases he : (k + 1) % 2 = 0
    · rw [if_neg (by simp only [Bool.or_eq_true, decide_eq_true_eq, Bool.and_eq_true, beq_iff_eq]; omega)]
    · rw [if_neg he] at h
      have hr' : ¬ 2 * r ≤ D := fun hr' => absurd (hdown.2 hr') (by push_cast at h; linarith)
      rw [if_neg (by simp only [Bool.or_eq_true, decide_eq_true_eq, Bool.and_eq_true, beq_iff_eq]; omega)]

theorem exponentOf_eq {n d : Nat} (hn : 0 < n) (hd : 0 < d) {k : Int} (hlow : (2 : ℚ) ^ k ≤ (n : ℚ) / d)
    (hhigh : (n : ℚ) / d < 2 ^ (k + 1)) : Binary64.exponentOf n d = max (k - 52) Binary64.leastExponent := by
  have hdq : (0 : ℚ) < d := by exact_mod_cast hd
  have hn₁ : (2 : ℚ) ^ (n.log2 : Int) ≤ n := by exact_mod_cast Nat.log2_self_le hn.ne'
  have hn₂ : (n : ℚ) < 2 ^ ((n.log2 : Int) + 1) := by exact_mod_cast Nat.lt_log2_self
  have hd₁ : (2 : ℚ) ^ (d.log2 : Int) ≤ d := by exact_mod_cast Nat.log2_self_le hd.ne'
  have hd₂ : (d : ℚ) < 2 ^ ((d.log2 : Int) + 1) := by exact_mod_cast Nat.lt_log2_self
  unfold Binary64.exponentOf
  dsimp only
  generalize (n.log2 : Int) = a at *
  generalize (d.log2 : Int) = b at *
  have hratio₁ : (2 : ℚ) ^ (a - b - 1) < (n : ℚ) / d := by
    rw [lt_div_iff₀ hdq]
    calc (2 : ℚ) ^ (a - b - 1) * d < 2 ^ (a - b - 1) * 2 ^ (b + 1) := by gcongr
      _ = 2 ^ a := by rw [← zpow_add₀ two_ne_zero]; congr 1; ring
      _ ≤ n := hn₁
  have hratio₂ : (n : ℚ) / d < 2 ^ (a - b + 1) := by
    rw [div_lt_iff₀ hdq]
    calc (n : ℚ) < 2 ^ (a + 1) := hn₂
      _ = 2 ^ (a - b + 1) * 2 ^ b := by rw [← zpow_add₀ two_ne_zero]; congr 1; ring
      _ ≤ 2 ^ (a - b + 1) * d := by gcongr
  have hlt {i j : Int} (h : (2 : ℚ) ^ i < 2 ^ j) : i < j := (zpow_lt_zpow_iff_right₀ one_lt_two).1 h
  by_cases h : powerLeRatio (a - b) n d = true
  · rw [if_pos h]
    have h₁ := hlt (((powerLeRatio_iff hd _).1 h).trans_lt hhigh)
    have h₂ := hlt (hlow.trans_lt hratio₂)
    rw [show k = a - b by omega]
  · rw [if_neg h]
    rw [powerLeRatio_iff hd, not_le] at h
    have h₁ := hlt (hratio₁.trans hhigh)
    have h₂ := hlt (hlow.trans_lt h)
    rw [show k = a - b - 1 by omega]

namespace Binary64

/-- The significand and the exponent of a finite double other than zero. -/
structure Canonical (m : Nat) (q : Int) : Prop where
  pos : 0 < m
  lt : m < 2 * leadingBit
  least : leastExponent ≤ q
  greatest : q ≤ 971
  normal : leastExponent < q → leadingBit ≤ m

/-- The bits of such a double without its sign. -/
def bitsOf (m : Nat) (q : Int) : Nat := if m < leadingBit then m else (q + 1075).toNat * leadingBit + (m - leadingBit)

/-- How far the numbers that read as `m * 2 ^ q` reach below it, in units of the last place. -/
def reach (m : Nat) (q : Int) : ℚ := if m = leadingBit ∧ leastExponent < q then 1 / 4 else 1 / 2

/-- The numbers that read as `m * 2 ^ q`. -/
def ReadsAs (x : ℚ) (m : Nat) (q : Int) : Prop :=
  if m % 2 = 0 then (m : ℚ) - reach m q ≤ x / 2 ^ q ∧ x / 2 ^ q ≤ m + 1 / 2
  else (m : ℚ) - reach m q < x / 2 ^ q ∧ x / 2 ^ q < m + 1 / 2

theorem reach_le (m : Nat) (q : Int) : reach m q ≤ 1 / 2 := by
  unfold reach
  split <;> norm_num

theorem ReadsAs.roundsTo {x : ℚ} {m : Nat} {q : Int} (h : ReadsAs x m q) : RoundsTo (x / 2 ^ q) m := by
  have hr := reach_le m q
  unfold ReadsAs at h
  unfold RoundsTo
  split at h
  · next he => rw [if_pos he]; exact ⟨by linarith, h.2⟩
  · next he => rw [if_neg he]; exact ⟨by linarith, h.2⟩

theorem ReadsAs.bounds {x : ℚ} {m : Nat} {q : Int} (h : ReadsAs x m q) :
    (m : ℚ) - reach m q ≤ x / 2 ^ q ∧ x / 2 ^ q ≤ m + 1 / 2 := by
  unfold ReadsAs at h
  split at h
  · exact h
  · exact ⟨h.1.le, h.2.le⟩

theorem nearestBits_eq {n d m : Nat} {e : Int} (hn : 0 < n) (hd : 0 < d) (he : exponentOf n d = e)
    (hm : RoundsTo ((n : ℚ) / d / 2 ^ e) m) : nearestBits n d = min (bitsOf m e) infinityBits := by
  have hD : 0 < d * Nat.pow 2 e.toNat := Nat.mul_pos hd (Nat.two_pow_pos _)
  rw [← scaled_ratio] at hm
  rw [nearestBits, if_neg (by simpa using hn.ne'), he]
  dsimp only
  rw [roundHalfEven_eq hD hm]
  rfl

theorem Canonical.bitsOf_le {m : Nat} {q : Int} (h : Canonical m q) : bitsOf m q ≤ infinityBits := by
  have hlt := h.lt
  have hgreatest := h.greatest
  have hfield : (q + 1075).toNat ≤ 2046 := by omega
  unfold bitsOf infinityBits
  by_cases hm : m < leadingBit
  · rw [if_pos hm]
    omega
  · rw [if_neg hm]
    unfold leadingBit at *
    omega

theorem leadingBit_eq : ((leadingBit : Nat) : ℚ) = 2 ^ (52 : Int) := by norm_num [leadingBit]

theorem ReadsAs.half_le {x : ℚ} {m : Nat} {q : Int} (hc : Canonical m q) (h : ReadsAs x m q) : 1 / 2 ≤ x / 2 ^ q := by
  have hm : (1 : ℚ) ≤ m := by exact_mod_cast hc.pos
  have hr := reach_le m q
  have hlow := h.bounds.1
  linarith

theorem ReadsAs.lt_pow {x : ℚ} {m : Nat} {q : Int} (hc : Canonical m q) (h : ReadsAs x m q) : x < 2 ^ (53 + q) := by
  have hlt : (m : ℚ) + 1 ≤ 2 * leadingBit := by exact_mod_cast hc.lt
  have hhigh := h.bounds.2
  have hbelow : x / 2 ^ q < 2 ^ (53 : Int) := by
    have hdouble : (2 : ℚ) * 2 ^ (52 : Int) = 2 ^ (53 : Int) := by norm_num
    rw [leadingBit_eq] at hlt
    linarith
  rwa [div_lt_iff₀ (by positivity), ← zpow_add₀ two_ne_zero] at hbelow

section Ratio

variable {n d m : Nat} {q : Int} (hc : Canonical m q) (hd : 0 < d) (h : ReadsAs ((n : ℚ) / d) m q)

include hc h

theorem ReadsAs.num_pos : 0 < n := by
  have hhalf := h.half_le hc
  rcases Nat.eq_zero_or_pos n with rfl | hn
  · norm_num at hhalf
  · exact hn

include hd

/-- No smaller than the power of two below, or among the smallest doubles, a ratio has the exponent of the double it
reads as. -/
theorem exponentOf_of_readsAs (hy : (leadingBit : ℚ) ≤ (n : ℚ) / d / 2 ^ q ∨ leastExponent = q) :
    exponentOf n d = q := by
  have hpow : (0 : ℚ) < 2 ^ q := by positivity
  have hn := h.num_pos hc
  by_cases hge : (leadingBit : ℚ) ≤ (n : ℚ) / d / 2 ^ q
  · have he : exponentOf n d = max (q + 52 - 52) leastExponent := by
      refine exponentOf_eq hn hd ?_ ?_
      · rw [leadingBit_eq, le_div_iff₀ hpow, ← zpow_add₀ two_ne_zero] at hge
        rwa [add_comm]
      · rw [show q + 52 + 1 = 53 + q by ring]
        exact h.lt_pow hc
    rwa [add_sub_cancel_right, max_eq_left hc.least] at he
  · have hq := hy.resolve_left hge
    rw [not_le, leadingBit_eq, div_lt_iff₀ hpow, ← zpow_add₀ two_ne_zero] at hge
    obtain ⟨k, hk₁, hk₂⟩ := exists_mem_Ico_zpow (show (0 : ℚ) < (n : ℚ) / d by positivity) one_lt_two
    have hk : k < 52 + q := (zpow_lt_zpow_iff_right₀ one_lt_two).1 (hk₁.trans_lt hge)
    rw [exponentOf_eq hn hd hk₁ hk₂, max_eq_right (by omega), hq]

/-- Below a power of two the next smaller exponent is found, and rounding goes up to the power. -/
theorem nearestBits_below_power (hy : (n : ℚ) / d / 2 ^ q < leadingBit) (hq : leastExponent < q) :
    nearestBits n d = bitsOf m q := by
  have hpow : (0 : ℚ) < 2 ^ q := by positivity
  have hn := h.num_pos hc
  obtain ⟨hlow, -⟩ := h.bounds
  have hr := reach_le m q
  obtain rfl : m = leadingBit := by
    have hge := hc.normal hq
    have hlt : (m : ℚ) < leadingBit + 1 := by linarith
    have : m < leadingBit + 1 := by exact_mod_cast hlt
    omega
  rw [reach, if_pos ⟨rfl, hq⟩] at hlow
  have hhalf : (n : ℚ) / d / 2 ^ (q - 1) = 2 * ((n : ℚ) / d / 2 ^ q) := by
    rw [zpow_sub_one₀ two_ne_zero]
    field_simp
  have he : exponentOf n d = max (q + 51 - 52) leastExponent := by
    refine exponentOf_eq hn hd ?_ ?_
    · have hge : (2 : ℚ) ^ (51 : Int) ≤ (n : ℚ) / d / 2 ^ q := by
        have : (2 : ℚ) ^ (51 : Int) ≤ 2 ^ (52 : Int) - 1 / 4 := by norm_num
        rw [leadingBit_eq] at hlow
        linarith
      rw [le_div_iff₀ hpow, ← zpow_add₀ two_ne_zero] at hge
      rwa [add_comm]
    · rw [leadingBit_eq, div_lt_iff₀ hpow, ← zpow_add₀ two_ne_zero] at hy
      rwa [show q + 51 + 1 = 52 + q by ring]
  have hround : RoundsTo ((n : ℚ) / d / 2 ^ (q - 1)) (2 * leadingBit) := by
    rw [RoundsTo, if_pos (by simp), hhalf]
    push_cast
    constructor <;> linarith
  rw [show q + 51 - 52 = q - 1 by ring, max_eq_left (by omega)] at he
  rw [nearestBits_eq hn hd he hround]
  have hgreatest := hc.greatest
  rw [bitsOf, bitsOf, if_neg (by omega), if_neg (Nat.lt_irrefl _), infinityBits]
  unfold leadingBit leastExponent at *
  omega

/-- **Every ratio that reads as a double has the bits of the double.** -/
theorem nearestBits_of_readsAs : nearestBits n d = bitsOf m q := by
  by_cases hy : (leadingBit : ℚ) ≤ (n : ℚ) / d / 2 ^ q ∨ leastExponent = q
  · have he := exponentOf_of_readsAs hc hd h hy
    rw [nearestBits_eq (h.num_pos hc) hd he h.roundsTo, min_eq_left hc.bitsOf_le]
  · rw [not_or, not_le] at hy
    exact nearestBits_below_power hc hd h hy.1 (lt_of_le_of_ne hc.least hy.2)

end Ratio

end Binary64

end LispSession
