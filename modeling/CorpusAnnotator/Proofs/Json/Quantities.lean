import CorpusAnnotator.Json.Numeral
import CorpusAnnotator.Proofs.Number.Shortest

/-! Which numbers have a value. A number is out of range only if it is too large: what is rounded on
the way to its value takes it up by two parts in 2⁵³ at most. -/
namespace CorpusAnnotator.Json

open Number (Binary64 digitsValue maxNat64)
open Number.Binary64 (overflow rational)

variable {n : Numeral} {significand value k : Nat} {digits : List Char} {shift : Int}

/-! ## Digits -/

theorem digitsValue_eq (value : Nat) (digits : List Char) :
    digitsValue value digits = 10 ^ digits.length * value + digitsValue 0 digits :=
  Nat.ofDigitChars_eq_ofDigitChars_zero

theorem digitsValue_append (value : Nat) (digits more : List Char) :
    digitsValue value (digits ++ more) = digitsValue (digitsValue value digits) more :=
  Nat.ofDigitChars_append value

theorem le_digitsValue (value : Nat) (digits : List Char) :
    value * 10 ^ digits.length ≤ digitsValue value digits := by
  rw [digitsValue_eq, Nat.mul_comm]
  exact Nat.le_add_right _ _

/-- Digits that are left out only make a number smaller. -/
theorem takeDigits_le (value : Nat) (digits : List Char) :
    (takeDigits value digits).1 * 10 ^ (takeDigits value digits).2.length ≤
      digitsValue value digits := by
  induction digits generalizing value with
  | nil => exact (Nat.mul_one value).le
  | cons c digits ih =>
    rw [takeDigits]
    split
    · exact le_digitsValue value (c :: digits)
    · exact ih _

/-- All digits are taken if the number fits a word. -/
theorem takeDigits_of_le (h : digitsValue value digits ≤ maxNat64) :
    takeDigits value digits = (digitsValue value digits, []) := by
  induction digits generalizing value with
  | nil => rfl
  | cons c digits ih =>
    have hnext : 10 * value + (c.toNat - '0'.toNat) ≤ maxNat64 := by
      refine le_trans ?_ ((le_digitsValue (10 * value + (c.toNat - '0'.toNat)) digits).trans h)
      exact Nat.le_mul_of_pos_right _ (by positivity)
    rw [takeDigits]
    rw [if_neg (not_lt.mpr hnext)]
    exact ih h

/-! ## Scaling -/

/-- How much two roundings may add. -/
def slack : ℚ := (1 + 2⁻¹ ^ 53) ^ 2

theorem one_le_slack : 1 ≤ slack := by
  norm_num [slack]

theorem overflow_lt : overflow < 10 ^ 309 := by
  have heq : overflow = (18014398509481983 * 2 ^ 970 : Nat) := by
    rw [overflow, Nat.cast_mul, Nat.cast_pow]
    congr 1
    norm_num
  have hlt : 18014398509481983 * 2 ^ 970 < 10 ^ 309 := by decide +kernel
  rw [heq]
  exact_mod_cast hlt

/-- A whole number is rounded up by one part in 2⁵³ at most. -/
theorem ofRatio_of_lt {num : Nat} (hnum : 0 < num) (h : (num : ℚ) < overflow) :
    ∃ m e, Binary64.ofRatio false num 1 = .finite false m e ∧
      rational m e ≤ num * (1 + 2⁻¹ ^ 53) := by
  rcases Binary64.ofRatio_spec false hnum Nat.one_pos with ⟨m, e, heq, -, hle⟩ | ⟨-, hlarge⟩
  · rw [Nat.cast_one, div_one] at hle
    have hone : (1 : ℚ) ≤ num := by exact_mod_cast hnum
    exact ⟨m, e, heq, hle ((zpow_le_one_of_nonpos₀ one_le_two (by decide)).trans hone)⟩
  · rw [Nat.cast_one, div_one] at hlarge
    exact absurd h (not_lt.mpr hlarge)

theorem isFinite_mul {m m' : Nat} {e e' : Int} (h : rational m e * rational m' e' < overflow) :
    (Binary64.finite false m e * Binary64.finite false m' e').isFinite = true := by
  obtain ⟨hden, hvalue⟩ := Number.fraction_spec (m * m') (e + e')
  have hmul : Binary64.finite false m e * Binary64.finite false m' e' =
      .ofRatio false (Binary64.fraction (m * m') (e + e')).1
        (Binary64.fraction (m * m') (e + e')).2 := rfl
  rw [Binary64.rational_mul] at hvalue
  rw [hmul]
  rcases Nat.eq_zero_or_pos (Binary64.fraction (m * m') (e + e')).1 with hzero | hnum
  · rw [Binary64.ofRatio, if_pos hzero]
    rfl
  · rcases Binary64.ofRatio_spec false hnum hden with ⟨m₁, e₁, heq, -, -⟩ | ⟨-, hlarge⟩
    · rw [heq]
      rfl
    · rw [hvalue] at hlarge
      exact absurd h (not_lt.mpr hlarge)

theorem scaled?_of_lt (h : (significand : ℚ) * 10 ^ shift * slack < overflow) :
    ∃ x, scaled? significand shift = some x := by
  cases shift with
  | negSucc k => exact ⟨_, rfl⟩
  | ofNat k =>
    rw [Int.ofNat_eq_natCast, zpow_natCast] at h
    rcases Nat.eq_zero_or_pos significand with rfl | hpos
    · exact ⟨_, rfl⟩
    · have hone : (1 : ℚ) ≤ significand := by exact_mod_cast hpos
      have hpow : (1 : ℚ) ≤ 10 ^ k := one_le_pow₀ (by norm_num)
      have hslack := one_le_slack
      -- neither factor is larger than the product
      have hsignificand : (significand : ℚ) < overflow := by
        refine lt_of_le_of_lt ?_ h
        rw [mul_assoc]
        exact le_mul_of_one_le_right (by positivity) (one_le_mul_of_one_le_of_one_le hpow hslack)
      have hpower : (10 : ℚ) ^ k < overflow := by
        refine lt_of_le_of_lt ?_ h
        rw [mul_right_comm]
        exact le_mul_of_one_le_left (by positivity) (one_le_mul_of_one_le_of_one_le hone hslack)
      have hk : k ≤ powerLimit := by
        have hlt : (10 : ℚ) ^ k < 10 ^ 309 := hpower.trans overflow_lt
        exact Nat.lt_succ_iff.mp ((pow_lt_pow_iff_right₀ (by norm_num)).mp hlt)
      obtain ⟨m, e, hx, hxle⟩ := ofRatio_of_lt hpos hsignificand
      obtain ⟨m', e', hy, hyle⟩ :=
        @ofRatio_of_lt (10 ^ k) (by positivity) (by exact_mod_cast hpower)
      have hfinite : (Binary64.ofNat significand * powerOfTen k).isFinite = true := by
        have hpowerOfTen : powerOfTen k = .finite false m' e' := by
          rw [← hy]
          exact congrArg (Binary64.ofRatio false · 1) (Nat.one_mul _)
        rw [Binary64.ofNat, hx, hpowerOfTen]
        refine isFinite_mul (lt_of_le_of_lt ?_ h)
        calc rational m e * rational m' e'
            ≤ significand * (1 + 2⁻¹ ^ 53) * ((10 ^ k : Nat) * (1 + 2⁻¹ ^ 53)) :=
              mul_le_mul hxle hyle (by rw [rational]; positivity) (by positivity)
          _ = significand * 10 ^ k * slack := by
            rw [slack, Nat.cast_pow, Nat.cast_ofNat]
            ring
      simp only [scaled?, hfinite, if_true, if_neg (not_lt.mpr hk)]
      split <;> exact ⟨_, rfl⟩

/-! ## Numbers as written -/

namespace Numeral

/-- The exponent of a number as written. -/
def power (n : Numeral) : Int :=
  match n.exponent with
  | none => 0
  | some (true, digits) => -(digitsValue 0 digits : Int)
  | some (false, digits) => digitsValue 0 digits

/-- The digits of a number as written, without its sign. -/
def magnitude (n : Numeral) : ℚ :=
  digitsValue 0 (n.whole ++ n.fraction) * (10 : ℚ) ^ (n.power - n.fraction.length)

/-- What is scaled is not more than what is written. -/
theorem scaled_le (n : Numeral) (taken : Nat × List Char)
    (htaken : taken = takeDigits (digitsValue 0 n.whole) n.fraction) :
    (taken.1 : ℚ) * 10 ^ (-((n.fraction.length : Int) - taken.2.length) + n.power) ≤
      n.magnitude := by
  have hle := takeDigits_le (digitsValue 0 n.whole) n.fraction
  rw [← htaken, ← digitsValue_append] at hle
  have hpow : (10 : ℚ) ^ (-((n.fraction.length : Int) - taken.2.length) + n.power) =
      10 ^ taken.2.length * 10 ^ (n.power - n.fraction.length) := by
    rw [← zpow_natCast, ← zpow_add₀ (by norm_num)]
    congr 1
    ring
  rw [hpow, ← mul_assoc, magnitude]
  exact mul_le_mul_of_nonneg_right (by exact_mod_cast hle) (by positivity)

/-- A number has a value if its whole digits fit a word and it is not too large. -/
theorem exists_value? (hwhole : digitsValue 0 n.whole ≤ maxNat64)
    (hpower : n.power ≤ maxExponent) (hmagnitude : n.magnitude * slack < overflow) :
    ∃ q, n.value? = some q := by
  have hscaled := n.scaled_le _ rfl
  simp only [value?, takeDigits_of_le hwhole]
  generalize takeDigits (digitsValue 0 n.whole) n.fraction = taken at hscaled ⊢
  obtain ⟨significand, dropped⟩ := taken
  split
  · exact ⟨_, rfl⟩
  · have hvalue : ∃ x, scaled? significand
        (-((n.fraction.length : Int) - dropped.length) + n.power) = some x := by
      refine scaled?_of_lt (lt_of_le_of_lt ?_ hmagnitude)
      exact mul_le_mul_of_nonneg_right hscaled (zero_le_one.trans one_le_slack)
    obtain ⟨x, hx⟩ := hvalue
    obtain ⟨negative, whole, fraction, exponent⟩ := n
    simp only [List.length_nil, Nat.cast_zero, zero_sub]
    rcases exponent with - | ⟨- | -, digits⟩
    · simp only [power, add_zero] at hx
      simp only [hx, Option.map_some]
      exact ⟨_, rfl⟩
    · simp only [power] at hx
      have hle : digitsValue 0 digits ≤ maxExponent := Int.ofNat_le.mp hpower
      simp only [if_neg (not_lt.mpr hle), Bool.false_eq_true, if_false, hx, Option.map_some]
      exact ⟨_, rfl⟩
    · simp only [power, ← sub_eq_add_neg] at hx
      -- a number that is as small as this is zero
      by_cases hsmall : maxExponent < digitsValue 0 digits
      · simp only [if_pos hsmall, or_true, if_true, Option.map_some]
        exact ⟨_, rfl⟩
      · simp only [if_neg hsmall, if_true, hx, Option.map_some]
        exact ⟨_, rfl⟩

end Numeral

end CorpusAnnotator.Json
