import CorpusAnnotator.Metrics
import CorpusAnnotator.Proofs.Number.Nearest

/-! The rank of the percentile. Ninety-five of a hundred is not in the format, and what stands in
its place is a little less; still the product with a number of times is rounded to where nineteen of
twenty times lie, as long as there are fewer than 2⁴⁸ of them. -/
namespace CorpusAnnotator.Metrics

open Number Number.Binary64

variable {n k : Nat} {i : Int}

theorem percentileRank_le (n : Nat) : percentileRank n ≤ n - 1 := Nat.min_le_right _ _

/-- What stands in the place of ninety-five of a hundred. -/
theorem percentile_eq : percentile = .finite false 8556839292003942 (-53) := by decide +kernel

theorem rational_percentile :
    rational 8556839292003942 (-53) = 19 / 20 - 8 / (20 * 2 ^ 53) := by
  rw [rational]
  norm_num

/-- Both ends of the format are far from the products of what a word may hold. -/
theorem mul_percentile_bounds {q : ℚ} (hle : 1 / 2 ≤ q) (hlt : q < 2 ^ 65) :
    2 ^ (leastExponent + 52) ≤ q * rational 8556839292003942 (-53) ∧
      q * rational 8556839292003942 (-53) < 2 ^ (greatestExponent + 52) := by
  have hleast : (2 : ℚ) ^ (leastExponent + 52) ≤ 2 ^ (-2 : Int) :=
    zpow_le_zpow_right₀ one_le_two (by decide)
  have hgreatest : (2 : ℚ) ^ (65 : Int) ≤ 2 ^ (greatestExponent + 52) :=
    zpow_le_zpow_right₀ one_le_two (by decide)
  rw [rational_percentile]
  refine ⟨hleast.trans ?_, lt_of_lt_of_le ?_ hgreatest⟩
  · norm_num at hle ⊢
    linarith
  · norm_num at hlt ⊢
    linarith

/-- The product is rounded to what is not less than the whole part of nineteen of twenty, and less
than the next whole number. -/
theorem whole_of_rounds (hlt : n < 2 ^ 48)
    (h : Rounds (n * rational 8556839292003942 (-53)) k i) :
    ((19 * n / 20 : Nat) : ℚ) ≤ rational k i ∧ rational k i < (19 * n / 20 : Nat) + 1 := by
  have hparts : 19 * (n : ℚ) = 20 * (19 * n / 20 : Nat) + (19 * n % 20 : Nat) := by
    exact_mod_cast (Nat.div_add_mod (19 * n) 20).symm
  have hlast : ((19 * n % 20 : Nat) : ℚ) ≤ 19 := by
    exact_mod_cast Nat.lt_succ_iff.mp (Nat.mod_lt (19 * n) (by decide))
  have hnonneg : (0 : ℚ) ≤ n := Nat.cast_nonneg n
  have hn : (n : ℚ) < 2 ^ 48 := by exact_mod_cast hlt
  rw [rational_percentile] at h
  -- the unit of the last bit is small, as the product is below 2⁴⁸
  have hunit : i < -4 := by
    refine h.lt_of_lt_zpow (lt_of_le_of_lt (mul_le_of_le_one_right hnonneg ?_) hn)
    norm_num
  have hsmall : (2 : ℚ) ^ i ≤ 2 ^ (-5 : Int) := zpow_le_zpow_right₀ one_le_two (by omega)
  have hunitPos : (0 : ℚ) < 2 ^ i := by positivity
  have hhigh := h.high
  have hle := h.le
  have hge := h.ge
  rw [zpow_add₀ two_ne_zero] at hhigh
  rw [← sub_le_iff_le_add, le_div_iff₀ hunitPos] at hle
  rw [div_le_iff₀ hunitPos] at hge
  rw [rational]
  norm_num at hsmall hhigh hle hge hn
  refine ⟨?_, by linarith⟩
  rcases Nat.eq_zero_or_pos (19 * n % 20) with hwhole | hrest
  · -- nineteen of twenty is a whole number, and so a multiple of the unit
    obtain ⟨j, rfl⟩ : ∃ j : Nat, i = -j := ⟨(-i).toNat, by omega⟩
    have hunits : ((19 * n / 20 * 2 ^ j : Nat) : ℚ) * 2 ^ (-(j : Int)) = (19 * n / 20 : Nat) := by
      rw [Nat.cast_mul, Nat.cast_pow, Nat.cast_ofNat, zpow_neg, zpow_natCast, mul_assoc,
        mul_inv_cancel₀ (by positivity), mul_one]
    have hmultiple : 19 * n / 20 * 2 ^ j ≤ k := by
      refine h.le_of_lt ?_
      rw [lt_div_iff₀ hunitPos, sub_mul, hunits]
      rw [hwhole, Nat.cast_zero, add_zero] at hparts
      linarith
    rw [← hunits]
    exact mul_le_mul_of_nonneg_right (by exact_mod_cast hmultiple) hunitPos.le
  · have hone : (1 : ℚ) ≤ (19 * n % 20 : Nat) := by exact_mod_cast hrest
    linarith

/-- The rank is that of nineteen of twenty times, rounded down. -/
theorem percentileRank_eq (hlt : n < 2 ^ 48) : percentileRank n = min (19 * n / 20) (n - 1) := by
  rw [percentileRank, percentile_eq]
  congr 1
  rcases Nat.eq_zero_or_pos n with rfl | hpos
  · decide +kernel
  · obtain ⟨m, e, hvalue, hrational⟩ := exists_ofNat_eq hpos (Nat.lt_trans hlt (by decide))
    have hone : (1 : ℚ) ≤ n := by exact_mod_cast hpos
    have hbits : (n : ℚ) < 2 ^ 65 := by exact_mod_cast Nat.lt_trans hlt (by decide)
    obtain ⟨hlow, hhigh⟩ := mul_percentile_bounds (by linarith) hbits
    have hrounded := @exists_mul_rounds m 8556839292003942 e (-53)
    rw [hrational] at hrounded
    obtain ⟨m', e', k, i, hproduct, hnearest, hrounds⟩ := hrounded hlow hhigh
    obtain ⟨hle, hlt'⟩ := whole_of_rounds hlt hrounds
    rw [← hnearest] at hle hlt'
    rw [hvalue, hproduct]
    exact wholePart_eq hle hlt' (by rw [maxNat64]; omega)

/-- The percentile is not read in front of the median, however many times a word may count. -/
theorem half_le_percentileRank (hpos : 0 < n) (hlt : n < wordSize) : n / 2 ≤ percentileRank n := by
  have hone : (1 : ℚ) ≤ n := by exact_mod_cast hpos
  have hn : (n : ℚ) < 2 ^ 64 := by exact_mod_cast hlt
  have hgreatest : (2 : ℚ) ^ (64 : Int) < 2 ^ (greatestExponent + 52) :=
    zpow_lt_zpow_right₀ one_lt_two (by decide)
  obtain ⟨m, e, k, i, hvalue, hrational, hrounds⟩ := exists_ofNat_rounds hpos (hn.trans hgreatest)
  obtain ⟨hless, hmore⟩ := hrounds.bounds
  rw [← hrational] at hless hmore
  norm_num at hless hmore
  obtain ⟨hlow, hhigh⟩ := mul_percentile_bounds (by linarith) (by linarith : rational m e < 2 ^ 65)
  obtain ⟨m', e', k', i', hproduct, hnearest, hrounds'⟩ := exists_mul_rounds hlow hhigh
  obtain ⟨hless', -⟩ := hrounds'.bounds
  rw [← hnearest, rational_percentile] at hless'
  rw [percentileRank, percentile_eq, hvalue, hproduct]
  refine le_min (le_wholePart ?_ (by rw [maxNat64]; rw [wordSize] at hlt; omega)) (by omega)
  have hhalf : 2 * ((n / 2 : Nat) : ℚ) ≤ n := by exact_mod_cast Nat.mul_div_le n 2
  norm_num at hless'
  linarith

end CorpusAnnotator.Metrics
