import CorpusAnnotator.Number.Decimal
import CorpusAnnotator.Proofs.Number.Rounding

/-! The fewest digits of a floating-point number. The decimal that is found is positive, and lies in
the interval of what is nearer to the number than to the next one. -/
namespace CorpusAnnotator.Number

variable {num den m x fuel : Nat} {e exponent : Int} {i : Interval} {tie : Tie} {s : Scientific}

/-- The value of a decimal. -/
def Scientific.rational (s : Scientific) : ℚ := s.digits * (10 : ℚ) ^ s.exponent

theorem fraction_spec (m : Nat) (e : Int) : 0 < (Binary64.fraction m e).2 ∧
    ((Binary64.fraction m e).1 : ℚ) / (Binary64.fraction m e).2 = Binary64.rational m e := by
  cases e with
  | ofNat k =>
    refine ⟨Nat.one_pos, ?_⟩
    simp only [Binary64.fraction, Binary64.rational, Nat.shiftLeft_eq, Int.ofNat_eq_natCast,
      zpow_natCast]
    push_cast
    ring
  | negSucc k =>
    simp only [Binary64.fraction, Binary64.rational, Nat.shiftLeft_eq, zpow_negSucc]
    refine ⟨by positivity, ?_⟩
    push_cast
    rw [one_mul, div_eq_mul_inv]

/-! ## Decimal exponents -/

theorem digitCount_pos (n : Nat) : 0 < digitCount n := Nat.length_toDigits_pos

theorem lt_pow_digitCount (n : Nat) : n < 10 ^ digitCount n :=
  (Nat.length_toDigits_le_iff (by decide) (digitCount_pos n)).mp le_rfl

theorem pow_le_of_digitCount (hn : 0 < x) : 10 ^ (digitCount x - 1) ≤ x := by
  rcases Nat.eq_zero_or_pos (digitCount x - 1) with h | h
  · rw [h]
    exact hn
  · by_contra hlt
    have := (Nat.length_toDigits_le_iff (by decide) h).mpr (not_le.mp hlt)
    have := digitCount_pos x
    rw [digitCount] at *
    omega

/-- The power of ten of the first digit is not above the number. -/
theorem pow_leadingExponent_le (hnum : 0 < num) (hden : 0 < den) :
    (10 : ℚ) ^ leadingExponent num den ≤ num / den := by
  have hnumq : (0 : ℚ) < num := by exact_mod_cast hnum
  have hdenq : (0 : ℚ) < den := by exact_mod_cast hden
  rw [le_div_iff₀ hdenq, leadingExponent]
  split
  · next h =>
    have hquotient : 10 ^ (digitCount (num / den) - 1) * den ≤ num :=
      (Nat.mul_le_mul_right den (pow_le_of_digitCount (Nat.div_pos h hden))).trans
        (Nat.div_mul_le_self num den)
    have hexponent : (digitCount (num / den) : Int) - 1 = (digitCount (num / den) - 1 : Nat) := by
      have := digitCount_pos (num / den)
      omega
    rw [hexponent, zpow_natCast]
    exact_mod_cast hquotient
  · next h =>
    have hcount := digitCount_pos (den / num)
    dsimp only
    split
    · next hle =>
      have hexponent : 1 - (digitCount (den / num) : Int) = -(digitCount (den / num) - 1 : Nat) := by
        omega
      rw [hexponent, zpow_neg, zpow_natCast, inv_mul_le_iff₀ (by positivity), mul_comm]
      exact_mod_cast hle
    · have hlt : den ≤ num * 10 ^ digitCount (den / num) := by
        rw [mul_comm]
        exact ((Nat.div_lt_iff_lt_mul hnum).mp (lt_pow_digitCount (den / num))).le
      rw [zpow_neg, zpow_natCast, inv_mul_le_iff₀ (by positivity), mul_comm]
      exact_mod_cast hlt

/-! ## The search -/

/-- An interval around a positive number. -/
structure Interval.Proper (i : Interval) : Prop where
  low : 0 < i.low
  mid : i.low ≤ i.mid
  high : i.mid ≤ i.high
  unit : 0 < i.unit

namespace Interval

theorem proper_of (hm : 0 < m) (e : Int) : (Interval.of m e).Proper := by
  obtain ⟨hunit, hvalue⟩ := fraction_spec 1 (e - 2)
  have hscale : 0 < (Binary64.fraction 1 (e - 2)).1 := by
    refine Nat.pos_of_ne_zero fun h => ?_
    rw [h, Nat.cast_zero, zero_div, Binary64.rational, Nat.cast_one, one_mul] at hvalue
    exact (by positivity : (0 : ℚ) < 2 ^ (e - 2)).ne hvalue
  refine ⟨?_, Nat.mul_le_mul_right _ ?_, Nat.mul_le_mul_right _ (by omega), hunit⟩
  · refine Nat.mul_pos ?_ hscale
    split <;> omega
  · split <;> omega

/-- The end of the interval is half way to the next number. -/
theorem high_of (m : Nat) (e : Int) :
    ((Interval.of m e).high : ℚ) / (Interval.of m e).unit = (m + 1 / 2) * 2 ^ e := by
  obtain ⟨-, hvalue⟩ := fraction_spec 1 (e - 2)
  have hpow : (2 : ℚ) ^ e = 2 ^ (e - 2) * 4 := by
    rw [zpow_sub₀ two_ne_zero]
    norm_num
  rw [Binary64.rational, Nat.cast_one, one_mul] at hvalue
  rw [Interval.of, hpow, ← hvalue]
  push_cast
  ring

/-- On a grid the interval is what it was, divided by the step of the grid. -/
theorem onGrid_spec (h : i.Proper) (exponent : Int) : (i.onGrid exponent).Proper ∧
    ((i.onGrid exponent).mid : ℚ) / (i.onGrid exponent).unit = i.mid / i.unit / 10 ^ exponent ∧
    ((i.onGrid exponent).high : ℚ) / (i.onGrid exponent).unit = i.high / i.unit / 10 ^ exponent := by
  have hdiv (a b p : ℚ) : a * p / b = a / b / p⁻¹ := by
    rw [div_inv_eq_mul, div_mul_eq_mul_div]
  cases exponent with
  | ofNat k =>
    refine ⟨⟨h.low, h.mid, h.high, Nat.mul_pos h.unit (Nat.pow_pos (by decide))⟩, ?_⟩
    simp only [onGrid, Nat.pow_eq, Nat.cast_mul, Nat.cast_pow, Nat.cast_ofNat,
      Int.ofNat_eq_natCast, zpow_natCast, div_div, and_self]
  | negSucc k =>
    have hpow : 0 < 10 ^ (k + 1) := by positivity
    refine ⟨⟨Nat.mul_pos h.low hpow, Nat.mul_le_mul_right _ h.mid, Nat.mul_le_mul_right _ h.high,
      h.unit⟩, ?_⟩
    simp only [onGrid, Nat.pow_eq, Nat.cast_mul, Nat.cast_pow, Nat.cast_ofNat, zpow_negSucc, hdiv,
      and_self]

theorem contains_of_nearest? (h : i.nearest? tie = some x) : i.contains (x * i.unit) = true := by
  unfold nearest? at h
  simp only at h
  split at h
  · next hboth =>
    rw [Bool.and_eq_true] at hboth
    split at h
    · cases h
      exact hboth.1
    · split at h
      · cases h
        exact hboth.2
      · cases tie with
        | toEven =>
          cases h
          split
          · exact hboth.1
          · exact hboth.2
        | up =>
          cases h
          exact hboth.2
  · split at h
    · next hdown =>
      cases h
      exact hdown
    · split at h
      · next hup =>
        cases h
        exact hup
      · cases h

theorem bounds_of_contains (h : i.contains x = true) : i.low ≤ x ∧ x ≤ i.high := by
  unfold contains at h
  split at h <;> simp only [Bool.and_eq_true, decide_eq_true_eq] at h <;> omega

/-- A multiple of the step of a grid is in the interval if the same multiple of the unit is. -/
theorem rational_le_of_onGrid (h : i.Proper) (hx : x * (i.onGrid exponent).unit ≤ (i.onGrid exponent).high) :
    (Scientific.mk x exponent).rational ≤ i.high / i.unit := by
  obtain ⟨hgrid, -, hhigh⟩ := onGrid_spec h exponent
  have hunit : (0 : ℚ) < (i.onGrid exponent).unit := by exact_mod_cast hgrid.unit
  have hxq : (x : ℚ) ≤ (i.onGrid exponent).high / (i.onGrid exponent).unit := by
    rw [le_div_iff₀ hunit]
    exact_mod_cast hx
  rw [hhigh, le_div_iff₀ (by positivity)] at hxq
  exact hxq

/-- Whether the search ends at a grid point in the interval or gives up, what it finds is positive
and not past the end of the interval. -/
theorem search_spec (h : i.Proper) (tie : Tie) (fuel : Nat) (exponent : Int)
    (hmid : (10 : ℚ) ^ (exponent - fuel) ≤ i.mid / i.unit) :
    (i.search tie fuel exponent).digits ≠ 0 ∧
      (i.search tie fuel exponent).rational ≤ i.high / i.unit := by
  induction fuel generalizing exponent with
  | zero =>
    obtain ⟨hgrid, hvalue, -⟩ := onGrid_spec h exponent
    rw [Nat.cast_zero, sub_zero] at hmid
    rw [search]
    refine ⟨Nat.ne_of_gt (Nat.div_pos ?_ hgrid.unit), rational_le_of_onGrid h ?_⟩
    · have hunit : (0 : ℚ) < (i.onGrid exponent).unit := by exact_mod_cast hgrid.unit
      have hone : (1 : ℚ) ≤ (i.onGrid exponent).mid / (i.onGrid exponent).unit := by
        rw [hvalue, le_div_iff₀ (by positivity), one_mul]
        exact hmid
      rw [le_div_iff₀ hunit, one_mul] at hone
      exact_mod_cast hone
    · exact (Nat.div_mul_le_self _ _).trans hgrid.high
  | succ fuel ih =>
    rw [search]
    cases hnearest : (i.onGrid exponent).nearest? tie with
    | none =>
      refine ih (exponent - 1) ?_
      rw [Nat.cast_succ] at hmid
      rwa [sub_sub, add_comm 1]
    | some x =>
      obtain ⟨hlow, hhigh⟩ := bounds_of_contains (contains_of_nearest? hnearest)
      refine ⟨?_, rational_le_of_onGrid h hhigh⟩
      rintro rfl
      have := (onGrid_spec h exponent).1.low
      omega

end Interval

theorem trim_spec (fuel : Nat) (h : s.digits ≠ 0) :
    (s.trim fuel).digits ≠ 0 ∧ (s.trim fuel).rational = s.rational := by
  induction fuel generalizing s with
  | zero => exact ⟨h, rfl⟩
  | succ fuel ih =>
    rw [Scientific.trim]
    split
    · next hzero =>
      have hne : s.digits / 10 ≠ 0 := by omega
      obtain ⟨hdigits, hvalue⟩ := ih (s := ⟨s.digits / 10, s.exponent + 1⟩) hne
      refine ⟨hdigits, hvalue.trans ?_⟩
      have hten : ((s.digits / 10 : Nat) : ℚ) * 10 = s.digits := by
        exact_mod_cast Nat.div_mul_cancel (Nat.dvd_of_mod_eq_zero hzero.2)
      rw [Scientific.rational, Scientific.rational, zpow_add_one₀ (by norm_num), ← hten]
      ring
    · exact ⟨h, rfl⟩

/-- The fewest digits are those of a positive number, which is not past half the way to the next. -/
theorem shortest_spec (tie : Tie) (hm : 0 < m) (e : Int) : (shortest tie m e).digits ≠ 0 ∧
    (shortest tie m e).rational ≤ (m + 1 / 2) * 2 ^ e := by
  have h := Interval.proper_of hm e
  have hmid : 0 < (Interval.of m e).mid := Nat.lt_of_lt_of_le h.low h.mid
  have hpow := pow_leadingExponent_le hmid h.unit
  obtain ⟨hdigits, hvalue⟩ := Interval.search_spec h tie 17
    (leadingExponent (Interval.of m e).mid (Interval.of m e).unit)
    ((zpow_le_zpow_right₀ (by norm_num) (by omega)).trans hpow)
  obtain ⟨htrim, hsame⟩ := trim_spec 20 hdigits
  refine ⟨htrim, ?_⟩
  rw [shortest, hsame, ← Interval.high_of]
  exact hvalue

end CorpusAnnotator.Number
