import CorpusAnnotator.Proofs.Number.Shortest

/-! Between the least and the greatest numbers of the format, rounding goes to the nearest multiple
of a power of two: the one that leaves 53 bits before the point. A whole number of no more bits is
what it is, and a bound that is such a multiple bounds what is rounded too. -/
namespace CorpusAnnotator.Number

variable {num den k : Nat} {i : Int} {q : ℚ} {negative : Bool}

theorem le_two_mul_roundDiv (hden : 0 < den) (num : Nat) :
    2 * num ≤ 2 * (roundDiv num den * den) + den := by
  have hnum := Nat.div_add_mod num den
  have hnum : 2 * num = 2 * (num / den * den) + 2 * (num % den) := by
    rw [Nat.mul_comm (num / den) den]
    omega
  have hlt := Nat.mod_lt num hden
  unfold roundDiv
  simp only
  split
  · omega
  · split
    · rw [Nat.add_mul]
      omega
    · rw [Nat.add_mul]
      omega

namespace Binary64

theorem le_quotient (hden : 0 < den) (num : Nat) (e : Int) :
    num / den / 2 ^ e ≤ (quotient num den e : ℚ) + 1 / 2 := by
  have hround (a b : Nat) (hb : 0 < b) : (a : ℚ) / b ≤ roundDiv a b + 1 / 2 := by
    have hbq : (0 : ℚ) < b := by exact_mod_cast hb
    have h : 2 * (a : ℚ) ≤ 2 * ((roundDiv a b : ℚ) * b) + b := by
      exact_mod_cast le_two_mul_roundDiv hb a
    rw [div_le_iff₀ hbq]
    linarith
  cases e with
  | ofNat k =>
    have h := hround num (den * 2 ^ k) (by positivity)
    rw [Nat.cast_mul, Nat.cast_pow, Nat.cast_ofNat, ← div_div] at h
    rw [quotient, Nat.shiftLeft_eq, Int.ofNat_eq_natCast, zpow_natCast]
    exact h
  | negSucc k =>
    have h := hround (num * 2 ^ (k + 1)) den hden
    rw [Nat.cast_mul, Nat.cast_pow, Nat.cast_ofNat, mul_div_right_comm] at h
    rw [quotient, Nat.shiftLeft_eq, zpow_negSucc, div_inv_eq_mul]
    exact h

/-- A number `q` is rounded to `k` times the power of two that leaves it 53 bits. -/
structure Rounds (q : ℚ) (k : Nat) (i : Int) : Prop where
  low : 2 ^ (i + 52) ≤ q
  high : q < 2 ^ (i + 53)
  le : (k : ℚ) ≤ q / 2 ^ i + 1 / 2
  ge : q / 2 ^ i ≤ k + 1 / 2

namespace Rounds

/-- A whole number less than half a unit above what is rounded is at most what it is rounded to. -/
theorem le_of_lt {n : Nat} (h : Rounds q k i) (hn : (n : ℚ) - 1 / 2 < q / 2 ^ i) : n ≤ k := by
  have hlt : (n : ℚ) < k + 1 := by linarith [h.ge]
  exact Nat.lt_succ_iff.mp (by exact_mod_cast hlt)

theorem eq_of_eq {n : Nat} (h : Rounds q k i) (hn : q / 2 ^ i = n) : k = n := by
  have hle : (k : ℚ) < n + 1 := by linarith [h.le]
  exact Nat.le_antisymm (Nat.lt_succ_iff.mp (by exact_mod_cast hle)) (h.le_of_lt (by linarith))

/-- What a number is rounded to differs from it by one part in 2⁵³ at most. -/
theorem bounds (h : Rounds q k i) :
    q * (1 - 2⁻¹ ^ 53) ≤ rational k i ∧ rational k i ≤ q * (1 + 2⁻¹ ^ 53) := by
  have hpos : (0 : ℚ) < 2 ^ i := by positivity
  have hlow := h.low
  have hle := h.le
  have hge := h.ge
  rw [zpow_add₀ two_ne_zero] at hlow
  rw [← sub_le_iff_le_add, le_div_iff₀ hpos] at hle
  rw [div_le_iff₀ hpos] at hge
  rw [rational]
  norm_num at hlow ⊢
  constructor <;> linarith

/-- A bound leaves the last bit a place. -/
theorem lt_of_lt_zpow {j : Int} (h : Rounds q k i) (hq : q < 2 ^ (j + 52)) : i < j := by
  have hlt := (zpow_lt_zpow_iff_right₀ one_lt_two).mp (h.low.trans_lt hq)
  omega

end Rounds

/-- The format rounds to the nearest, between its least number of 53 bits and its greatest. -/
theorem exists_ofRatio_rounds (negative : Bool) (hnum : 0 < num) (hden : 0 < den)
    (hlow : 2 ^ (leastExponent + 52) ≤ (num : ℚ) / den)
    (hhigh : (num : ℚ) / den < 2 ^ (greatestExponent + 52)) :
    ∃ m e k i, ofRatio negative num den = .finite negative m e ∧ rational m e = rational k i ∧
      Rounds (num / den) k i := by
  obtain ⟨-, hupper, hlower⟩ := exponentFor_spec hnum hden
  have hlower : 2 ^ (exponentFor num den + 52) ≤ (num : ℚ) / den := by
    rcases hlower with heq | hlower
    · rw [heq]
      exact hlow
    · exact hlower
  have hrounds : Rounds (num / den) (quotient num den (exponentFor num den))
      (exponentFor num den) :=
    ⟨hlower, hupper, quotient_le hden num _, le_quotient hden num _⟩
  have hexponent : exponentFor num den < greatestExponent := hrounds.lt_of_lt_zpow hhigh
  by_cases hcarry : quotient num den (exponentFor num den) = 2 * leadingBit
  · refine ⟨_, _, _, _, ?_, rational_carry _, hcarry ▸ hrounds⟩
    rw [ofRatio_eq_of_carry hnum hcarry, if_neg (by omega)]
  · refine ⟨_, _, _, _, ?_, rfl, hrounds⟩
    rw [ofRatio_eq_of_lt hnum rfl hcarry, if_neg (by omega)]

theorem exists_ofNat_rounds {n : Nat} (hpos : 0 < n)
    (hhigh : (n : ℚ) < 2 ^ (greatestExponent + 52)) :
    ∃ m e k i, ofNat n = .finite false m e ∧ rational m e = rational k i ∧ Rounds n k i := by
  have hone : (1 : ℚ) ≤ n := by exact_mod_cast hpos
  have hlow : (2 : ℚ) ^ (leastExponent + 52) ≤ n :=
    (zpow_le_one_of_nonpos₀ one_le_two (by decide)).trans hone
  have hrounded := @exists_ofRatio_rounds n 1 false hpos Nat.one_pos
  rw [Nat.cast_one, div_one] at hrounded
  exact hrounded hlow hhigh

/-- A whole number of 53 bits is in the format. -/
theorem exists_ofNat_eq {n : Nat} (hpos : 0 < n) (hlt : n < 2 ^ 53) :
    ∃ m e, ofNat n = .finite false m e ∧ rational m e = n := by
  have hbits : (n : ℚ) < 2 ^ ((1 : Int) + 52) := by exact_mod_cast hlt
  obtain ⟨m, e, k, i, heq, hvalue, hrounds⟩ :=
    exists_ofNat_rounds hpos (hbits.trans (zpow_lt_zpow_right₀ one_lt_two (by decide)))
  refine ⟨m, e, heq, ?_⟩
  -- the power of two is at most one, so that the number is a whole multiple of it
  obtain ⟨j, rfl⟩ : ∃ j : Nat, i = -j := ⟨(-i).toNat, by have := hrounds.lt_of_lt_zpow hbits; omega⟩
  have hwhole : (n : ℚ) / 2 ^ (-(j : Int)) = (n * 2 ^ j : Nat) := by
    rw [zpow_neg, div_inv_eq_mul, zpow_natCast, Nat.cast_mul, Nat.cast_pow, Nat.cast_ofNat]
  rw [hvalue, hrounds.eq_of_eq hwhole, rational, ← hwhole, div_mul_cancel₀]
  positivity

/-- Products are rounded to the nearest. -/
theorem exists_mul_rounds {m m' : Nat} {e e' : Int}
    (hlow : 2 ^ (leastExponent + 52) ≤ rational m e * rational m' e')
    (hhigh : rational m e * rational m' e' < 2 ^ (greatestExponent + 52)) :
    ∃ n f k i, Binary64.finite false m e * .finite false m' e' = .finite false n f ∧
      rational n f = rational k i ∧ Rounds (rational m e * rational m' e') k i := by
  obtain ⟨hden, hvalue⟩ := fraction_spec (m * m') (e + e')
  rw [rational_mul] at hvalue
  have hnum : 0 < (fraction (m * m') (e + e')).1 := by
    refine Nat.pos_of_ne_zero fun hzero => ?_
    rw [hzero, Nat.cast_zero, zero_div] at hvalue
    rw [← hvalue] at hlow
    exact absurd hlow (not_le.mpr (by positivity))
  rw [← hvalue] at hlow hhigh ⊢
  exact exists_ofRatio_rounds false hnum hden hlow hhigh

/-- A whole number that does not exceed a number does not exceed its whole part. -/
theorem le_wholePart {n m : Nat} {e : Int} (hle : (n : ℚ) ≤ rational m e) (hn : n ≤ maxNat64) :
    n ≤ (Binary64.finite false m e).wholePart := by
  obtain ⟨hden, hvalue⟩ := fraction_spec m e
  have hdenq : (0 : ℚ) < (fraction m e).2 := by exact_mod_cast hden
  rw [← hvalue, le_div_iff₀ hdenq] at hle
  show n ≤ min ((fraction m e).1 / (fraction m e).2) maxNat64
  exact le_min ((Nat.le_div_iff_mul_le hden).mpr (by exact_mod_cast hle)) hn

/-- The whole part is the greatest of these. -/
theorem wholePart_eq {n m : Nat} {e : Int} (hle : (n : ℚ) ≤ rational m e)
    (hlt : rational m e < n + 1) (hn : n ≤ maxNat64) :
    (Binary64.finite false m e).wholePart = n := by
  refine le_antisymm ?_ (le_wholePart hle hn)
  obtain ⟨hden, hvalue⟩ := fraction_spec m e
  have hdenq : (0 : ℚ) < (fraction m e).2 := by exact_mod_cast hden
  rw [← hvalue, div_lt_iff₀ hdenq] at hlt
  have hdiv : (fraction m e).1 / (fraction m e).2 < n + 1 :=
    (Nat.div_lt_iff_lt_mul hden).mpr (by exact_mod_cast hlt)
  exact (Nat.min_le_left _ _).trans (Nat.lt_succ_iff.mp hdiv)

end Binary64

end CorpusAnnotator.Number
