import CorpusAnnotator.Number.Decimal
import Mathlib.Algebra.Order.Field.Power
import Mathlib.Data.Rat.Cast.Order
import Mathlib.Tactic.FieldSimp
import Mathlib.Tactic.Linarith
import Mathlib.Tactic.NormNum
import Mathlib.Tactic.Positivity
import Mathlib.Tactic.Ring

/-! How far a rounded number may lie above the exact one, and which numbers are too large for the
format. -/
namespace CorpusAnnotator.Number

variable {num den m : Nat} {e : Int} {negative : Bool}

theorem two_mul_roundDiv_le (num den : Nat) : 2 * (roundDiv num den * den) ≤ 2 * num + den := by
  have hnum := Nat.div_add_mod num den
  have hnum : 2 * num = 2 * (num / den * den) + 2 * (num % den) := by
    rw [Nat.mul_comm (num / den) den]
    omega
  unfold roundDiv
  simp only
  split
  · omega
  · split
    · rw [Nat.add_mul]
      omega
    · have hodd : num / den % 2 * den ≤ den := by
        calc num / den % 2 * den ≤ 1 * den := Nat.mul_le_mul_right den (by omega)
          _ = den := Nat.one_mul den
      rw [Nat.add_mul]
      omega

namespace Binary64

/-- The value of a mantissa and an exponent. -/
def rational (m : Nat) (e : Int) : ℚ := m * (2 : ℚ) ^ e

theorem rational_mul (m m' : Nat) (e e' : Int) :
    rational (m * m') (e + e') = rational m e * rational m' e' := by
  rw [rational, rational, rational, zpow_add₀ two_ne_zero, Nat.cast_mul]
  ring

/-- The first number that is rounded past the greatest of the format. -/
def overflow : ℚ := (2 ^ 54 - 1) * (2 : ℚ) ^ (970 : Int)

/-- What mantissas and exponents are in the format. -/
structure Formed (m : Nat) (e : Int) : Prop where
  lt : m < 2 * leadingBit
  least : leastExponent ≤ e
  greatest : e ≤ greatestExponent

/-- Numbers as there can be in the format. -/
def InFormat (x : Binary64) : Prop :=
  ∀ negative m e, x = .finite negative m e → Formed m e

theorem quotient_le (hden : 0 < den) (num : Nat) (e : Int) :
    (quotient num den e : ℚ) ≤ num / den / 2 ^ e + 1 / 2 := by
  have hdenq : (0 : ℚ) < den := by exact_mod_cast hden
  have hround (a b : Nat) (hb : 0 < b) : (roundDiv a b : ℚ) ≤ a / b + 1 / 2 := by
    have hbq : (0 : ℚ) < b := by exact_mod_cast hb
    have h : 2 * ((roundDiv a b : ℚ) * b) ≤ 2 * a + b := by exact_mod_cast two_mul_roundDiv_le a b
    rw [div_add_div _ _ hbq.ne' two_ne_zero, le_div_iff₀ (by positivity)]
    linarith
  cases e with
  | ofNat k =>
    have h := hround num (den * 2 ^ k) (by positivity)
    rw [Nat.cast_mul, Nat.cast_pow, Nat.cast_ofNat, ← div_div] at h
    rw [quotient, Nat.shiftLeft_eq, Int.ofNat_eq_natCast, zpow_natCast]
    exact h
  | negSucc k =>
    have h := hround (num * 2 ^ (k + 1)) den hden
    rw [Nat.cast_mul, Nat.cast_pow, Nat.cast_ofNat, mul_div_right_comm] at h
    rw [quotient, Nat.shiftLeft_eq, zpow_negSucc, div_inv_eq_mul]
    exact h

/-- The comparison that tells whether a quotient has one bit more than the logarithms say. -/
theorem wide_iff (hden : 0 < den) (e : Int) :
    (match e with
      | .ofNat k => decide (den <<< (k + 53) ≤ num)
      | .negSucc k => decide (den <<< 53 ≤ num <<< (k + 1))) = true ↔
      (2 : ℚ) ^ (e + 53) ≤ num / den := by
  have hdenq : (0 : ℚ) < den := by exact_mod_cast hden
  cases e with
  | ofNat k =>
    have hpow : (2 : ℚ) ^ (Int.ofNat k + 53) = 2 ^ (k + 53) := by
      rw [Int.ofNat_eq_natCast]
      exact_mod_cast rfl
    rw [hpow, le_div_iff₀ hdenq, decide_eq_true_eq, Nat.shiftLeft_eq, mul_comm]
    exact_mod_cast Iff.rfl
  | negSucc k =>
    have hpow : (2 : ℚ) ^ (Int.negSucc k + 53) = 2 ^ 53 / 2 ^ (k + 1) := by
      rw [zpow_add₀ two_ne_zero, zpow_negSucc, mul_comm, ← div_eq_mul_inv]
      rfl
    rw [hpow, le_div_iff₀ hdenq, div_mul_eq_mul_div, div_le_iff₀ (by positivity),
      decide_eq_true_eq, Nat.shiftLeft_eq, Nat.shiftLeft_eq, mul_comm]
    exact_mod_cast Iff.rfl

/-- The logarithms of two numbers bound their quotient, up to two bits. -/
theorem log2_quotient (hnum : 0 < num) (hden : 0 < den) (he : e = (num.log2 : Int) - den.log2 - 53) :
    (2 : ℚ) ^ (e + 52) ≤ num / den ∧ (num : ℚ) / den < 2 ^ (e + 54) := by
  have hdenq : (0 : ℚ) < den := by exact_mod_cast hden
  have hlow (n : Nat) (hn : 0 < n) : (2 : ℚ) ^ (n.log2 : Int) ≤ n := by
    exact_mod_cast Nat.log2_self_le hn.ne'
  have hhigh (n : Nat) : (n : ℚ) < 2 ^ ((n.log2 : Int) + 1) := by
    exact_mod_cast Nat.lt_log2_self (n := n)
  rw [le_div_iff₀ hdenq, div_lt_iff₀ hdenq]
  constructor
  · calc (2 : ℚ) ^ (e + 52) * den ≤ 2 ^ (e + 52) * 2 ^ ((den.log2 : Int) + 1) :=
          mul_le_mul_of_nonneg_left (hhigh den).le (by positivity)
      _ = 2 ^ (num.log2 : Int) := by rw [← zpow_add₀ two_ne_zero, he]; congr 1; ring
      _ ≤ num := hlow num hnum
  · calc (num : ℚ) < 2 ^ ((num.log2 : Int) + 1) := hhigh num
      _ = 2 ^ (e + 54) * 2 ^ (den.log2 : Int) := by
        rw [← zpow_add₀ two_ne_zero, he]; congr 1; ring
      _ ≤ 2 ^ (e + 54) * den := mul_le_mul_of_nonneg_left (hlow den hden) (by positivity)

theorem exponentFor_eq (hden : 0 < den) (he : e = (num.log2 : Int) - den.log2 - 53) :
    exponentFor num den =
      max leastExponent (if (2 : ℚ) ^ (e + 53) ≤ num / den then e + 1 else e) := by
  subst he
  exact congrArg (max leastExponent) (if_congr (wide_iff hden _) rfl rfl)

/-- The exponent leaves 53 bits before the point, unless it is the least one. -/
theorem exponentFor_spec (hnum : 0 < num) (hden : 0 < den) :
    leastExponent ≤ exponentFor num den ∧
      (num : ℚ) / den < 2 ^ (exponentFor num den + 53) ∧
      (exponentFor num den = leastExponent ∨ 2 ^ (exponentFor num den + 52) ≤ (num : ℚ) / den) := by
  obtain ⟨hbelow, habove⟩ := log2_quotient hnum hden rfl
  rw [exponentFor_eq hden rfl]
  generalize (num.log2 : Int) - den.log2 - 53 = e at hbelow habove ⊢
  -- either way there are 53 bits, if that is not too small for the format
  obtain ⟨k, hk, hlow, hhigh⟩ : ∃ k : Int, (if (2 : ℚ) ^ (e + 53) ≤ num / den then e + 1 else e) = k ∧
      2 ^ (k + 52) ≤ (num : ℚ) / den ∧ (num : ℚ) / den < 2 ^ (k + 53) := by
    split
    · next hwide => exact ⟨e + 1, rfl, by rwa [add_assoc], by rwa [add_assoc]⟩
    · next hnarrow => exact ⟨e, rfl, hbelow, not_le.mp hnarrow⟩
  rw [hk]
  refine ⟨le_max_left _ _, hhigh.trans_le (zpow_le_zpow_right₀ one_le_two ?_), ?_⟩
  · exact Int.add_le_add_right (le_max_right _ _) 53
  · rcases max_choice leastExponent k with h | h
    · exact .inl h
    · rw [h]
      exact .inr hlow

/-! ## A mantissa that a number is rounded to -/

section

variable {q : ℚ}

theorem rational_carry (e : Int) : rational leadingBit (e + 1) = rational (2 * leadingBit) e := by
  rw [rational, rational, zpow_add_one₀ two_ne_zero, Nat.cast_mul, Nat.cast_ofNat]
  ring

theorem rational_le_of_round (hround : (m : ℚ) ≤ q / 2 ^ e + 1 / 2) : rational m e ≤ q + 2 ^ e / 2 := by
  have hpos : (0 : ℚ) < 2 ^ e := by positivity
  calc rational m e ≤ (q / 2 ^ e + 1 / 2) * 2 ^ e := mul_le_mul_of_nonneg_right hround hpos.le
    _ = q + 2 ^ e / 2 := by rw [add_mul, div_mul_cancel₀ q hpos.ne', one_div_mul_eq_div]

theorem rational_le_of_normal (hround : (m : ℚ) ≤ q / 2 ^ e + 1 / 2) (hlow : 2 ^ (e + 52) ≤ q) :
    rational m e ≤ q * (1 + 2⁻¹ ^ 53) := by
  have h := rational_le_of_round hround
  rw [zpow_add₀ two_ne_zero] at hlow
  norm_num at hlow ⊢
  linarith

theorem mantissa_le_of_round (hround : (m : ℚ) ≤ q / 2 ^ e + 1 / 2) (hhigh : q < 2 ^ (e + 53)) :
    m ≤ 2 * leadingBit := by
  have hdiv : q / 2 ^ e < 2 ^ (53 : Int) := by
    rw [div_lt_iff₀ (by positivity), ← zpow_add₀ two_ne_zero, add_comm]
    exact hhigh
  have hlt : (m : ℚ) < 2 ^ 53 + 1 := by
    norm_num at hdiv
    linarith
  exact Nat.lt_succ_iff.mp (by exact_mod_cast hlt)

theorem overflow_le_of_lt (he : greatestExponent < e) (hlow : 2 ^ (e + 52) ≤ q) : overflow ≤ q := by
  have hpow : (2 : ℚ) ^ (970 + 54 : Int) ≤ 2 ^ (e + 52) :=
    zpow_le_zpow_right₀ one_le_two (by rw [greatestExponent] at he; omega)
  have hpos : (0 : ℚ) < 2 ^ (970 : Int) := by positivity
  rw [zpow_add₀ two_ne_zero] at hpow
  rw [overflow]
  generalize (2 : ℚ) ^ (970 : Int) = z at *
  norm_num at hpow ⊢
  linarith

theorem overflow_le_of_carry (he : greatestExponent ≤ e)
    (hround : ((2 * leadingBit : Nat) : ℚ) ≤ q / 2 ^ e + 1 / 2) : overflow ≤ q := by
  have h := rational_le_of_round hround
  have hpow : (2 : ℚ) ^ (970 + 1 : Int) ≤ 2 ^ e := zpow_le_zpow_right₀ one_le_two he
  rw [zpow_add₀ two_ne_zero] at hpow
  rw [rational, leadingBit] at h
  rw [overflow]
  generalize (2 : ℚ) ^ (970 : Int) = z at *
  norm_num at h hpow ⊢
  linarith

end

/-! ## Rounding -/

theorem ofRatio_eq_of_lt (hnum : 0 < num) (hm : quotient num den (exponentFor num den) = m)
    (hlt : m ≠ 2 * leadingBit) : ofRatio negative num den =
      if greatestExponent < exponentFor num den then .infinite negative
      else .finite negative m (exponentFor num den) := by
  rw [ofRatio, if_neg hnum.ne']
  simp only [hm, if_neg hlt]

theorem ofRatio_eq_of_carry (hnum : 0 < num)
    (hm : quotient num den (exponentFor num den) = 2 * leadingBit) : ofRatio negative num den =
      if greatestExponent < exponentFor num den + 1 then .infinite negative
      else .finite negative leadingBit (exponentFor num den + 1) := by
  rw [ofRatio, if_neg hnum.ne']
  simp only [hm, if_true]

/-- A number that is rounded is in the format, or past its end. Unless it is very small, it grows by
no more than one part in 2⁵³. -/
theorem ofRatio_spec (negative : Bool) (hnum : 0 < num) (hden : 0 < den) :
    (∃ m e, ofRatio negative num den = .finite negative m e ∧ Formed m e ∧
      (2 ^ (leastExponent + 53) ≤ (num : ℚ) / den →
        rational m e ≤ num / den * (1 + 2⁻¹ ^ 53))) ∨
      ofRatio negative num den = .infinite negative ∧ overflow ≤ (num : ℚ) / den := by
  obtain ⟨hleast, hhigh, hlow⟩ := exponentFor_spec hnum hden
  have hround := quotient_le hden num (exponentFor num den)
  have hnormal (h : 2 ^ (leastExponent + 53) ≤ (num : ℚ) / den) :
      2 ^ (exponentFor num den + 52) ≤ (num : ℚ) / den := by
    rcases hlow with heq | hlow
    · rw [heq]
      exact (zpow_le_zpow_right₀ one_le_two (by omega)).trans h
    · exact hlow
  have hbound := mantissa_le_of_round hround hhigh
  by_cases hcarry : quotient num den (exponentFor num den) = 2 * leadingBit
  · rw [ofRatio_eq_of_carry hnum hcarry]
    rw [hcarry] at hround
    split
    · next hlarge =>
      exact .inr ⟨rfl, overflow_le_of_carry (Int.lt_add_one_iff.mp hlarge) hround⟩
    · next hsmall =>
      refine .inl ⟨_, _, rfl, ⟨by decide, by omega, not_lt.mp hsmall⟩, fun h => ?_⟩
      rw [rational_carry]
      exact rational_le_of_normal hround (hnormal h)
  · rw [ofRatio_eq_of_lt hnum rfl hcarry]
    split
    · next hlarge =>
      refine .inr ⟨rfl, overflow_le_of_lt hlarge (hlow.resolve_left fun heq => ?_)⟩
      rw [heq] at hlarge
      exact absurd hlarge (by decide)
    · next hsmall =>
      exact .inl ⟨_, _, rfl, ⟨lt_of_le_of_ne hbound hcarry, hleast, not_lt.mp hsmall⟩,
        fun h => rational_le_of_normal hround (hnormal h)⟩

theorem formed_zero : Formed 0 leastExponent := ⟨by decide, le_rfl, by decide⟩

theorem formed_of_ofRatio {sign : Bool} (hden : 0 < den)
    (h : ofRatio sign num den = .finite negative m e) : Formed m e := by
  rcases Nat.eq_zero_or_pos num with hnum | hnum
  · rw [ofRatio, if_pos hnum] at h
    cases h
    exact formed_zero
  · rcases ofRatio_spec sign hnum hden with ⟨m', e', heq, hformed, -⟩ | ⟨heq, -⟩
    · rw [heq] at h
      cases h
      exact hformed
    · rw [heq] at h
      cases h

end Binary64

/-! ## Reading -/

open Binary64 (Formed)

theorem formed_of_ofDecimal {sign : Bool} {n : Nat} {exponent : Int}
    (h : Binary64.ofDecimal sign n exponent = .finite negative m e) : Formed m e := by
  cases exponent with
  | ofNat k => exact Binary64.formed_of_ofRatio Nat.one_pos h
  | negSucc k =>
    have hpow : 0 < Nat.pow 10 (k + 1) := Nat.pow_pos (by decide)
    exact Binary64.formed_of_ofRatio hpow h

theorem Numeral.formed_of_value {n : Numeral} {sign : Bool}
    (h : n.value sign = .finite negative m e) : Formed m e := by
  unfold Numeral.value at h
  dsimp only at h
  split at h
  · cases h
    exact Binary64.formed_zero
  · split at h
    · cases h
    · split at h
      · cases h
        exact Binary64.formed_zero
      · exact formed_of_ofDecimal h

/-- What is read is in the format. -/
theorem inFormat_of_readFloat {text : List Char} {x : Binary64} (h : readFloat text = .ok x) :
    x.InFormat := by
  rintro negative m e rfl
  unfold readFloat at h
  split at h
  · cases h
  · dsimp only at h
    split at h
    · cases h
    · split at h
      · cases h
      · split at h
        · exact Numeral.formed_of_value (Except.ok.inj h)
        · cases h

end CorpusAnnotator.Number
