import LispSession.Proofs.Decimal.Bits
import LispSession.Proofs.Decimal.Shortest
import LispSession.Decimal.Positional
import LispSession.Token
/-!
# Numbers read back

The text of a finite number is a word that is classified as that number (`classifyWord_numberText`).  The digits are
those of the shortest decimal; putting them into positional notation and reading them again keeps the number they denote
(`Decimal.positional_eq`), and the nearest double to it has the bits that were taken apart.
-/
namespace LispSession

namespace Numeral

/-- The number that a numeral denotes, without its sign. -/
def value (x : Numeral) : ℚ := x.coefficient * 10 ^ x.exponent

theorem digitsValue_eq (digits : List Char) : digitsValue digits = Nat.ofDigitChars 10 digits 0 := by
  simp only [digitsValue, Nat.ofDigitChars, Nat.mul_comm]

/-- What comes after the sign of a numeral. -/
def unsigned (negative : Bool) (cs : List Char) : Option Numeral :=
  let whole := cs.takeWhile Char.isDigit
  let (fraction, cs) := takeFraction (cs.dropWhile Char.isDigit)
  if whole.isEmpty && fraction.isEmpty then none
  else (exponent? cs).map fun e => ⟨negative, digitsValue (whole ++ fraction), e - fraction.length⟩

theorem parse?_eq (word : List Char) : parse? word = unsigned (takeSign word).1 (takeSign word).2 := rfl

/-- Digits, with a point and more digits behind them or without. -/
structure Layout (cs whole fraction : List Char) : Prop where
  whole_ne : whole ≠ []
  isDigit_whole : ∀ c ∈ whole, c.isDigit = true
  isDigit_fraction : ∀ c ∈ fraction, c.isDigit = true
  eq : cs = whole ∧ fraction = [] ∨ cs = whole ++ '.' :: fraction

namespace Layout

variable {cs whole fraction : List Char} (h : Layout cs whole fraction)

include h

theorem unsigned_eq (negative : Bool) :
    unsigned negative cs = some ⟨negative, digitsValue (whole ++ fraction), -fraction.length⟩ := by
  obtain ⟨hne, hw, hf, ⟨rfl, rfl⟩ | rfl⟩ := h
  · have htake : cs.takeWhile Char.isDigit = cs := List.takeWhile_eq_self_iff.2 hw
    have hdrop : cs.dropWhile Char.isDigit = [] := List.dropWhile_eq_nil_iff.2 hw
    unfold unsigned
    simp only [htake, hdrop, takeFraction, exponent?]
    simp [hne]
  · have htake : (whole ++ '.' :: fraction).takeWhile Char.isDigit = whole := by
      rw [List.takeWhile_append_of_pos hw]
      simp
    have hdrop : (whole ++ '.' :: fraction).dropWhile Char.isDigit = '.' :: fraction := by
      rw [List.dropWhile_append_of_pos hw]
      simp
    have htake' : fraction.takeWhile Char.isDigit = fraction := List.takeWhile_eq_self_iff.2 hf
    have hdrop' : fraction.dropWhile Char.isDigit = [] := List.dropWhile_eq_nil_iff.2 hf
    unfold unsigned
    simp only [htake, hdrop, takeFraction, htake', hdrop', exponent?]
    simp [hne]

theorem starts : ∃ d ds, cs = d :: ds ∧ d.isDigit = true := by
  obtain ⟨d, ds, hd⟩ := List.exists_cons_of_ne_nil h.whole_ne
  have hdigit := h.isDigit_whole d (by simp [hd])
  obtain ⟨hcs, -⟩ | hcs := h.eq
  · exact ⟨d, ds, by rw [hcs, hd], hdigit⟩
  · exact ⟨d, ds ++ '.' :: fraction, by rw [hcs, hd]; rfl, hdigit⟩

theorem isDigit_or_eq {c : Char} (hc : c ∈ cs) : c.isDigit = true ∨ c = '.' := by
  obtain ⟨hcs, -⟩ | hcs := h.eq
  · exact .inl (h.isDigit_whole c (hcs ▸ hc))
  · rw [hcs, List.mem_append, List.mem_cons] at hc
    obtain hc | rfl | hc := hc
    · exact .inl (h.isDigit_whole c hc)
    · exact .inr rfl
    · exact .inl (h.isDigit_fraction c hc)

theorem classifyWord_eq (negative : Bool) :
    classifyWord (if negative then '-' :: cs else cs) =
      some (.num (toFloat ⟨negative, digitsValue (whole ++ fraction), -fraction.length⟩)) := by
  obtain ⟨d, ds, hcs, hd⟩ := h.starts
  have hother : ∀ c : Char, c.isDigit = false → d ≠ c := by
    rintro c hc rfl
    rw [hd] at hc
    cases hc
  have hsign : takeSign (if negative then '-' :: cs else cs) = (negative, cs) := by
    cases negative with
    | true => rfl
    | false =>
      rw [hcs]
      simp [takeSign, hother '-' (by decide), hother '+' (by decide)]
  have hparse := h.unsigned_eq negative
  unfold classifyWord
  rw [parse?_eq, hsign, hparse]
  cases negative with
  | true => simp [hcs, isNumberLike, hd]
  | false => simp [hcs, isNumberLike, hd, hother '.' (by decide), hother '#' (by decide)]

end Layout

end Numeral

namespace Decimal

variable (x : Decimal)

theorem isDigit_of_mem_significantDigits {c : Char} (h : c ∈ x.significantDigits) : c.isDigit = true := by
  refine Nat.isDigit_of_mem_toDigits (b := 10) (n := x.coefficient) (by decide) (by decide) ?_
  rw [significantDigits, List.mem_reverse] at h
  exact List.mem_reverse.1 ((List.dropWhile_sublist _).subset h)

theorem toDigits_eq : ∃ k, Nat.toDigits 10 x.coefficient = x.significantDigits ++ List.replicate k '0' := by
  refine ⟨((Nat.toDigits 10 x.coefficient).reverse.takeWhile (· == '0')).length, ?_⟩
  have hzeros : (Nat.toDigits 10 x.coefficient).reverse.takeWhile (· == '0') =
      List.replicate ((Nat.toDigits 10 x.coefficient).reverse.takeWhile (· == '0')).length '0' := by
    refine List.eq_replicate_of_mem fun c hc => ?_
    simpa using List.mem_takeWhile_imp hc
  have happend := List.takeWhile_append_dropWhile (p := (· == '0')) (l := (Nat.toDigits 10 x.coefficient).reverse)
  rw [significantDigits]
  conv => lhs; rw [← List.reverse_reverse (Nat.toDigits 10 x.coefficient), ← happend, List.reverse_append, hzeros]
  rw [List.reverse_replicate]

/-- The significant digits denote the decimal, up to the power of ten that the zeros behind them stand for. -/
theorem value_eq : ∃ k : Nat, (Nat.toDigits 10 x.coefficient).length = x.significantDigits.length + k ∧
    x.value = Nat.ofDigitChars 10 x.significantDigits 0 * 10 ^ (k + x.exponent : Int) := by
  obtain ⟨k, hk⟩ := x.toDigits_eq
  have hcoefficient : x.coefficient = 10 ^ k * Nat.ofDigitChars 10 x.significantDigits 0 := by
    conv => lhs; rw [← Nat.ofDigitChars_ten_toDigits (n := x.coefficient), hk, Nat.ofDigitChars_append]
    exact Nat.ofDigitChars_replicate_zero
  refine ⟨k, by rw [hk]; simp, ?_⟩
  rw [value, hcoefficient, zpow_add₀ (by norm_num), zpow_natCast]
  push_cast
  ring

/-- **The positional notation**: digits with at most one point among them, not in front, which denote the decimal. -/
theorem positional_eq (h : 0 < x.value) : ∃ whole fraction : List Char, Numeral.Layout x.positional whole fraction ∧
    (Numeral.digitsValue (whole ++ fraction) : ℚ) * 10 ^ (-(fraction.length : Int)) = x.value := by
  obtain ⟨k, hlen, hvalue⟩ := x.value_eq
  have hdigit := fun c => x.isDigit_of_mem_significantDigits (c := c)
  have hzero : ∀ (n : Nat), ∀ c ∈ List.replicate n '0', c.isDigit = true := fun n c hc => by
    rw [List.eq_of_mem_replicate hc]
    decide
  have hne : x.significantDigits ≠ [] := by
    intro h0
    rw [hvalue, h0] at h
    simp at h
  unfold positional
  dsimp only
  rw [hlen, hvalue]
  simp only [Numeral.digitsValue_eq]
  generalize x.significantDigits = digits at *
  push_cast
  split
  · next hp =>
    refine ⟨['0'], List.replicate (-((digits.length : Int) + k + x.exponent)).toNat '0' ++ digits,
      ⟨by simp, by simp, ?_, .inr rfl⟩, ?_⟩
    · intro c hc
      rcases List.mem_append.1 hc with hc | hc
      · exact hzero _ c hc
      · exact hdigit c hc
    · have hexponent :
          -(((List.replicate (-((digits.length : Int) + k + x.exponent)).toNat '0' ++ digits).length : Nat) : Int) =
            k + x.exponent := by
        simp only [List.length_append, List.length_replicate]
        omega
      rw [hexponent, Nat.ofDigitChars_append, Nat.ofDigitChars_append]
      simp [Nat.ofDigitChars_cons]
  · split
    · next hp =>
      refine ⟨_, [], ⟨?_, ?_, by simp, .inl ⟨rfl, rfl⟩⟩, ?_⟩
      · simp [hne]
      · intro c hc
        rcases List.mem_append.1 hc with hc | hc
        · exact hdigit c hc
        · exact hzero _ c hc
      · have hexponent : (((digits.length : Int) + k + x.exponent).toNat - digits.length : Nat) =
            k + x.exponent := by omega
        rw [← hexponent, List.append_nil, Nat.ofDigitChars_append, Nat.ofDigitChars_replicate_zero, zpow_natCast]
        push_cast
        simp [mul_comm]
    · next hp hp' =>
      refine ⟨_, _, ⟨?_, fun c hc => hdigit c (List.mem_of_mem_take hc), fun c hc => hdigit c (List.mem_of_mem_drop hc),
        .inr rfl⟩, ?_⟩
      · simp [hne]
        omega
      · have hexponent : -(((digits.drop ((digits.length : Int) + k + x.exponent).toNat).length : Nat) : Int) =
            k + x.exponent := by
          rw [List.length_drop]
          omega
        rw [hexponent, List.take_append_drop]

end Decimal

namespace Numeral

open Binary64

theorem range_of_readsAs {v : ℚ} {m : Nat} {q : Int} (hc : Canonical m q) (h : ReadsAs v m q) :
    (10 : ℚ) ^ (-331 : Int) < v ∧ v < 10 ^ (310 : Int) := by
  constructor
  · have hhalf : (2 : ℚ) ^ (-1 : Int) ≤ v / 2 ^ q := by
      rw [zpow_neg_one, ← one_div]
      exact h.half_le hc
    rw [le_div_iff₀ (by positivity), ← zpow_add₀ two_ne_zero] at hhalf
    have hleast := hc.least
    unfold leastExponent at hleast
    calc (10 : ℚ) ^ (-(331 : Nat) : Int) < 2 ^ (-(1075 : Nat) : Int) := by
          rw [zpow_neg, zpow_neg, zpow_natCast, zpow_natCast, inv_lt_inv₀ (by positivity) (by positivity)]
          exact_mod_cast (by decide +kernel : 2 ^ 1075 < 10 ^ 331)
      _ ≤ 2 ^ (-1 + q) := zpow_le_zpow_right₀ one_le_two (by omega)
      _ ≤ v := hhalf
  · have hgreatest := hc.greatest
    calc v < 2 ^ (53 + q) := h.lt_pow hc
      _ ≤ 2 ^ ((1024 : Nat) : Int) := zpow_le_zpow_right₀ one_le_two (by omega)
      _ ≤ 10 ^ ((310 : Nat) : Int) := by
          rw [zpow_natCast, zpow_natCast]
          exact_mod_cast (by decide +kernel : 2 ^ 1024 ≤ 10 ^ 310)

theorem pow_le_value {x : Numeral} (h : 0 < x.coefficient) :
    (10 : ℚ) ^ (((Nat.toDigits 10 x.coefficient).length : Int) + x.exponent - 1) ≤ x.value := by
  have hdigits := Nat.length_toDigits_pos (b := 10) (n := x.coefficient)
  have hle : (10 : ℚ) ^ (((Nat.toDigits 10 x.coefficient).length : Int) - 1) ≤ x.coefficient := by
    rw [← Nat.cast_one, ← Nat.cast_sub hdigits, zpow_natCast]
    exact_mod_cast pow_length_toDigits_le h
  rw [add_sub_right_comm, zpow_add₀ (by norm_num)]
  exact mul_le_mul_of_nonneg_right hle (by positivity)

theorem value_lt_pow (x : Numeral) : x.value < 10 ^ (((Nat.toDigits 10 x.coefficient).length : Int) + x.exponent) := by
  have hlt : (x.coefficient : ℚ) < 10 ^ ((Nat.toDigits 10 x.coefficient).length : Int) := by
    rw [zpow_natCast]
    exact_mod_cast lt_pow_length_toDigits x.coefficient
  rw [zpow_add₀ (by norm_num)]
  exact mul_lt_mul_of_pos_right hlt (by positivity)

/-- **A numeral that denotes a number which reads as a double has the bits of the double**: powers of ten that are
decided without computing them are out of the range of the doubles. -/
theorem magnitudeBits_of_readsAs {x : Numeral} {m : Nat} {q : Int} (hc : Canonical m q) (h : ReadsAs x.value m q) :
    x.magnitudeBits = bitsOf m q := by
  obtain ⟨hlow, hhigh⟩ := range_of_readsAs hc h
  have hpos : 0 < x.coefficient := by
    rcases Nat.eq_zero_or_pos x.coefficient with h0 | hpos
    · rw [value, h0, Nat.cast_zero, zero_mul] at hlow
      exact absurd hlow (not_lt.2 (by positivity))
    · exact hpos
  have hle {a b : Int} (hab : a ≤ b) : (10 : ℚ) ^ a ≤ 10 ^ b := zpow_le_zpow_right₀ (by norm_num) hab
  unfold magnitudeBits
  dsimp only
  rw [if_neg (by simpa using hpos.ne')]
  split
  · next htop => exact absurd hhigh (not_lt.2 ((hle (by omega)).trans (pow_le_value hpos)))
  · split
    · next htop => exact absurd hlow (not_lt.2 (x.value_lt_pow.le.trans (hle (by omega))))
    · refine nearestBits_of_readsAs hc (Nat.pow_pos (by decide)) ?_
      have hratio : ((x.coefficient * Nat.pow 10 x.exponent.toNat : Nat) : ℚ) / (Nat.pow 10 (-x.exponent).toNat : Nat) =
          x.value := by
        rw [value, ← pow_toNat_div 10 x.exponent]
        push_cast [Nat.pow_eq]
        ring
      rwa [hratio]

theorem magnitudeBits_le (x : Numeral) : x.magnitudeBits ≤ infinityBits := by
  unfold magnitudeBits
  split
  · exact Nat.zero_le _
  · dsimp only
    split
    · exact Nat.le_refl _
    · split
      · exact Nat.zero_le _
      · exact nearestBits_le _ _

/-- A numeral may denote too much for a double, but it always denotes a number. -/
theorem isNaN_toFloat (x : Numeral) : x.toFloat.isNaN = false := Binary64.isNaN_toFloat x.negative x.magnitudeBits_le

end Numeral

/-- A finite number is written as digits, with a minus sign in front or without, that denote it. -/
theorem numberText_eq {x : Float} (h : x.isFinite = true) : ∃ negative cs whole fraction,
    (numberText x).toList = (if negative then '-' :: cs else cs) ∧ Numeral.Layout cs whole fraction ∧
    Numeral.toFloat ⟨negative, Numeral.digitsValue (whole ++ fraction), -fraction.length⟩ = x := by
  obtain ⟨negative, m, q, hx, hback, hcanonical⟩ := Binary64.ofFloat_finite h
  rcases Nat.eq_zero_or_pos m with rfl | hm
  · refine ⟨negative, ['0'], ['0'], [], ?_, ⟨by simp, by simp, by simp, .inl ⟨rfl, rfl⟩⟩, hback⟩
    rw [numberText, hx]
    cases negative <;> simp
  · have hreads := shortestDecimal_readsAs (hcanonical hm)
    have hpos : 0 < (shortestDecimal m q).value :=
      lt_trans (by positivity) (Numeral.range_of_readsAs (hcanonical hm) hreads).1
    obtain ⟨whole, fraction, hlayout, hvalue⟩ := (shortestDecimal m q).positional_eq hpos
    refine ⟨negative, (shortestDecimal m q).positional, whole, fraction, ?_, hlayout, ?_⟩
    · obtain ⟨k, rfl⟩ := Nat.exists_eq_succ_of_ne_zero hm.ne'
      rw [numberText, hx]
      cases negative <;> simp
    · rw [Numeral.toFloat, Numeral.magnitudeBits_of_readsAs (hcanonical hm)]
      · exact hback
      · rw [Numeral.value]
        rwa [hvalue]

/-- **The text of a finite number is a word that says that number.** -/
theorem classifyWord_numberText {x : Float} (h : x.isFinite = true) :
    classifyWord (numberText x).toList = some (.num x) := by
  obtain ⟨negative, cs, whole, fraction, htext, hlayout, hx⟩ := numberText_eq h
  rw [htext, hlayout.classifyWord_eq negative, hx]

theorem isDelimiter_of_isDigit {c : Char} (h : c.isDigit = true) : isDelimiter c = false := by
  obtain ⟨hlow, hhigh⟩ : 48 ≤ c.toNat ∧ c.toNat ≤ 57 := Char.isDigit_iff_toNat.1 h
  have hne : ∀ d : Char, d.toNat < 48 ∨ 57 < d.toNat → (c == d) = false := by
    intro d hd
    rw [beq_eq_false_iff_ne]
    rintro rfl
    omega
  simp only [isDelimiter, isBlank, hne '(' (by decide), hne ')' (by decide), hne '\'' (by decide), hne '"' (by decide),
    hne ';' (by decide)]
  simp
  omega

theorem isDelimiter_numberText {x : Float} (h : x.isFinite = true) :
    (numberText x).toList ≠ [] ∧ ∀ c ∈ (numberText x).toList, isDelimiter c = false := by
  obtain ⟨negative, cs, whole, fraction, htext, hlayout, -⟩ := numberText_eq h
  obtain ⟨d, ds, hcs, -⟩ := hlayout.starts
  have hinside : ∀ c ∈ cs, isDelimiter c = false := by
    intro c hc
    obtain hdigit | rfl := hlayout.isDigit_or_eq hc
    · exact isDelimiter_of_isDigit hdigit
    · decide
  rw [htext]
  cases negative with
  | false => exact ⟨by simp [hcs], by simpa using hinside⟩
  | true => exact ⟨by simp, by simpa using ⟨by decide, hinside⟩⟩

end LispSession
