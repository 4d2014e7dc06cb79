import CorpusAnnotator.Json.Printer
import CorpusAnnotator.Proofs.Json.Numerals
import CorpusAnnotator.Proofs.Json.Quantities

/-! Floating-point numbers as they are printed. A finite one is printed as a well-formed number, and
if it is in the format, that number has a value: even the greatest is not rounded out of range. -/
namespace CorpusAnnotator.Json

open Number (Binary64 Scientific digitsValue maxNat64 shortest)
open Number.Binary64 (Formed overflow)

variable {s : Scientific} {negative : Bool} {m k n value : Nat} {e : Int} {digits : List Char}

/-! ## Digits of whole numbers -/

theorem digits_toDigits (n : Nat) : Digits (Nat.toDigits 10 n) :=
  fun _ h => Nat.isDigit_of_mem_toDigits (by decide) (by decide) h

theorem digitsValue_toDigits (n : Nat) : digitsValue 0 (Nat.toDigits 10 n) = n :=
  Nat.ofDigitChars_ten_toDigits

theorem digitsValue_zeros (value k : Nat) :
    digitsValue value (List.replicate k '0') = 10 ^ k * value :=
  Nat.ofDigitChars_replicate_zero

/-- A positive number has no zero in front. -/
theorem head?_toDigits (hn : n ≠ 0) : (Nat.toDigits 10 n).head? ≠ some '0' := by
  have hdigit : ∀ d < 10, d ≠ 0 → Nat.digitChar d ≠ '0' := by decide
  induction n using Nat.strong_induction_on with
  | _ n ih =>
    rcases Nat.lt_or_ge n 10 with hlt | hge
    · rw [Nat.toDigits_of_lt_base hlt, List.head?_cons, ne_eq, Option.some_inj]
      exact hdigit n hlt hn
    · rw [Nat.toDigits_of_base_le (by decide) hge, List.head?_append_of_ne_nil _ Nat.toDigits_ne_nil]
      exact ih (n / 10) (by omega) (by omega)

theorem digitsValue_lt (h : Digits digits) (value : Nat) :
    digitsValue value digits < (value + 1) * 10 ^ digits.length := by
  induction digits generalizing value with
  | nil => exact Nat.lt_of_lt_of_eq (Nat.lt_succ_self value) (Nat.mul_one _).symm
  | cons c digits ih =>
    have hc : c.toNat - '0'.toNat ≤ 9 := by
      have hdigit := h c List.mem_cons_self
      simp only [Char.isDigit, Bool.and_eq_true, decide_eq_true_eq] at hdigit
      have hle : c.toNat ≤ 57 := hdigit.2
      exact Nat.sub_le_sub_right hle 48
    calc digitsValue value (c :: digits)
        < (10 * value + (c.toNat - '0'.toNat) + 1) * 10 ^ digits.length :=
          ih (fun d hd => h d (List.mem_cons_of_mem c hd)) _
      _ ≤ ((value + 1) * 10) * 10 ^ digits.length := Nat.mul_le_mul_right _ (by omega)
      _ = (value + 1) * 10 ^ (c :: digits).length := by
        rw [List.length_cons, Nat.pow_succ, Nat.mul_assoc, Nat.mul_comm 10]

/-- The number that a decimal is printed as. -/
def numeralOf (negative : Bool) (s : Scientific) : Numeral :=
  let digits := Nat.toDigits 10 s.digits
  let exponent := s.exponent + digits.length - 1
  if isPositional exponent then
    match s.exponent with
    | .ofNat k => ⟨negative, digits ++ List.replicate k '0', ['0'], none⟩
    | .negSucc k =>
      if digits.length ≤ k + 1 then
        ⟨negative, ['0'], List.replicate (k + 1 - digits.length) '0' ++ digits, none⟩
      else
        let whole := digits.length - (k + 1)
        ⟨negative, digits.take whole, digits.drop whole, none⟩
  else
    ⟨negative, digits.take 1, digits.drop 1,
      some (exponent < 0, Nat.toDigits 10 exponent.natAbs)⟩

/-- What the number of a decimal has to be. -/
structure Prints (s : Scientific) (n : Numeral) : Prop where
  wellFormed : n.WellFormed
  whole : n.whole.length ≤ 16
  magnitude : n.magnitude = s.rational
  power : n.power ≤ max 0 (s.exponent + (Nat.toDigits 10 s.digits).length - 1)

theorem Digits.append {digits more : List Char} (h : Digits digits) (h' : Digits more) :
    Digits (digits ++ more) := by
  intro c hc
  exact (List.mem_append.mp hc).elim (h c) (h' c)

theorem digits_zeros (k : Nat) : Digits (List.replicate k '0') := by
  intro c hc
  rw [List.eq_of_mem_replicate hc]
  rfl

theorem head?_toDigits_append (hvalue : value ≠ 0) (more : List Char) :
    (Nat.toDigits 10 value ++ more).head? ≠ some '0' := by
  rw [List.head?_append_of_ne_nil _ Nat.toDigits_ne_nil]
  exact head?_toDigits hvalue

/-- Digits with zeros behind them, and a zero behind the point. -/
theorem prints_whole (hvalue : value ≠ 0)
    (hlength : (Nat.toDigits 10 value).length + k ≤ 16) :
    Prints ⟨value, k⟩ ⟨negative, Nat.toDigits 10 value ++ List.replicate k '0', ['0'], none⟩ where
  wellFormed :=
    { whole := (digits_toDigits value).append (digits_zeros k)
      nonempty := List.append_ne_nil_of_left_ne_nil Nat.toDigits_ne_nil _
      zero := fun h => absurd h (head?_toDigits_append hvalue _)
      fraction := digits_zeros 1
      exponent := nofun }
  whole := by rwa [List.length_append, List.length_replicate]
  magnitude := by
    have hzero (x : Nat) : digitsValue x ['0'] = x * 10 := Nat.mul_comm 10 x
    rw [Numeral.magnitude, Scientific.rational, digitsValue_append, digitsValue_append,
      digitsValue_toDigits, digitsValue_zeros, hzero]
    simp only [Numeral.power, List.length_singleton, zpow_natCast]
    push_cast
    norm_num
    ring
  power := le_max_left _ _

/-- Digits behind the point and zeros in front of them. -/
theorem prints_fraction (hlength : (Nat.toDigits 10 value).length ≤ k + 1) :
    Prints ⟨value, Int.negSucc k⟩ ⟨negative, ['0'],
      List.replicate (k + 1 - (Nat.toDigits 10 value).length) '0' ++ Nat.toDigits 10 value, none⟩
    where
  wellFormed :=
    { whole := digits_zeros 1
      nonempty := List.cons_ne_nil _ _
      zero := fun _ => rfl
      fraction := (digits_zeros _).append (digits_toDigits value)
      exponent := nofun }
  whole := (by decide : 1 ≤ 16)
  magnitude := by
    have hfraction : k + 1 - (Nat.toDigits 10 value).length + (Nat.toDigits 10 value).length = k + 1 :=
      Nat.sub_add_cancel hlength
    have hzero : digitsValue 0 ['0'] = 0 := rfl
    rw [Numeral.magnitude, Scientific.rational, digitsValue_append, digitsValue_append, hzero,
      digitsValue_zeros, Nat.mul_zero, digitsValue_toDigits, List.length_append,
      List.length_replicate, hfraction]
    rfl
  power := le_max_left _ _

/-- Digits on both sides of the point. -/
theorem prints_split (hvalue : value ≠ 0) (hlong : k + 1 < (Nat.toDigits 10 value).length)
    (hlength : (Nat.toDigits 10 value).length ≤ k + 1 + 16) :
    Prints ⟨value, Int.negSucc k⟩ ⟨negative,
      (Nat.toDigits 10 value).take ((Nat.toDigits 10 value).length - (k + 1)),
      (Nat.toDigits 10 value).drop ((Nat.toDigits 10 value).length - (k + 1)), none⟩ where
  wellFormed :=
    { whole := fun c hc => digits_toDigits value c (List.mem_of_mem_take hc)
      nonempty := by
        rw [ne_eq, List.take_eq_nil_iff, not_or]
        exact ⟨by omega, Nat.toDigits_ne_nil⟩
      zero := fun h => by
        rw [List.head?_take, if_neg (by omega)] at h
        exact absurd h (head?_toDigits hvalue)
      fraction := fun c hc => digits_toDigits value c (List.mem_of_mem_drop hc)
      exponent := nofun }
  whole := by
    rw [List.length_take]
    omega
  magnitude := by
    have hfraction : (Nat.toDigits 10 value).length - ((Nat.toDigits 10 value).length - (k + 1)) =
        k + 1 := by
      omega
    rw [Numeral.magnitude, Scientific.rational, List.take_append_drop, digitsValue_toDigits,
      List.length_drop, hfraction]
    rfl
  power := le_max_left _ _

/-- One digit in front of the point, and an exponent. -/
theorem prints_exponent {exponent power : Int} (hvalue : value ≠ 0)
    (hpower : power = exponent + (Nat.toDigits 10 value).length - 1) :
    Prints ⟨value, exponent⟩ ⟨negative, (Nat.toDigits 10 value).take 1,
      (Nat.toDigits 10 value).drop 1, some (power < 0, Nat.toDigits 10 power.natAbs)⟩ := by
  have hsigned : Numeral.power ⟨negative, (Nat.toDigits 10 value).take 1,
      (Nat.toDigits 10 value).drop 1, some (power < 0, Nat.toDigits 10 power.natAbs)⟩ = power := by
    by_cases hneg : power < 0
    · simp only [Numeral.power, hneg, decide_true, digitsValue_toDigits]
      omega
    · simp only [Numeral.power, hneg, decide_false, digitsValue_toDigits]
      omega
  have hpos : 0 < (Nat.toDigits 10 value).length := Nat.length_toDigits_pos
  exact
    { wellFormed :=
        { whole := fun c hc => digits_toDigits value c (List.mem_of_mem_take hc)
          nonempty := by
            rw [ne_eq, List.take_eq_nil_iff, not_or]
            exact ⟨Nat.one_ne_zero, Nat.toDigits_ne_nil⟩
          zero := fun h => by
            rw [List.head?_take, if_neg Nat.one_ne_zero] at h
            exact absurd h (head?_toDigits hvalue)
          fraction := fun c hc => digits_toDigits value c (List.mem_of_mem_drop hc)
          exponent := fun e he => by
            cases he
            exact ⟨Nat.toDigits_ne_nil, digits_toDigits _⟩ }
      whole := by
        rw [List.length_take]
        omega
      magnitude := by
        rw [Numeral.magnitude, Scientific.rational, hsigned, List.take_append_drop,
          digitsValue_toDigits, List.length_drop, hpower, Nat.cast_sub hpos]
        congr 2
        push_cast
        ring
      power := by
        rw [hsigned, hpower]
        exact le_max_right _ _ }

theorem isPositional_iff {exponent : Int} :
    isPositional exponent = true ↔ -5 ≤ exponent ∧ exponent < 16 := by
  simp [isPositional]

theorem prints_numeralOf (negative : Bool) (hs : s.digits ≠ 0) : Prints s (numeralOf negative s) := by
  obtain ⟨value, exponent⟩ := s
  have hpos : 0 < (Nat.toDigits 10 value).length := Nat.length_toDigits_pos
  unfold numeralOf
  dsimp only
  split
  · next hpositional =>
    obtain ⟨-, hsmall⟩ := isPositional_iff.mp hpositional
    cases exponent with
    | ofNat k => exact prints_whole hs (by simp only [Int.ofNat_eq_natCast] at hsmall; omega)
    | negSucc k =>
      dsimp only
      split
      · next hlength => exact prints_fraction hlength
      · next hlong => exact prints_split hs (by omega) (by omega)
  · exact prints_exponent hs rfl

/-! ## What is printed -/

theorem toList_withExponent (digits : List Char) (exponent : Int) (hne : digits ≠ []) :
    (withExponent digits exponent).toList = Numeral.text ⟨false, digits.take 1, digits.drop 1,
      some (exponent < 0, Nat.toDigits 10 exponent.natAbs)⟩ := by
  obtain ⟨d, rest, rfl⟩ := List.exists_cons_of_ne_nil hne
  have hsign : (if exponent < 0 then "-" else "+").toList =
      [if decide (exponent < 0) then '-' else '+'] := by
    split <;> simp [*]
  cases rest <;>
    simp [withExponent, Numeral.text, Numeral.fractionText, Numeral.exponentText,
      String.toList_append, hsign]

theorem toList_positional (s : Scientific)
    (h : isPositional (s.exponent + (Nat.toDigits 10 s.digits).length - 1) = true) :
    (s.positional ++ (if s.exponent < 0 then "" else ".0")).toList = (numeralOf false s).text := by
  obtain ⟨value, exponent⟩ := s
  rw [numeralOf]
  dsimp only
  rw [if_pos h]
  cases exponent with
  | ofNat k =>
    have hnonneg : ¬Int.ofNat k < 0 := not_lt.mpr (Int.natCast_nonneg k)
    rw [if_neg hnonneg]
    simp [Scientific.positional, Numeral.text, Numeral.fractionText, Numeral.exponentText,
      String.toList_append]
  | negSucc k =>
    rw [if_pos (Int.negSucc_lt_zero k), String.append_empty]
    dsimp only [Scientific.positional]
    split
    · simp [Numeral.text, Numeral.fractionText, Numeral.exponentText]
    · next hlong =>
      have hne : (Nat.toDigits 10 value).drop ((Nat.toDigits 10 value).length - (k + 1)) ≠ [] := by
        rw [ne_eq, List.drop_eq_nil_iff]
        omega
      simp [Numeral.text, Numeral.fractionText, Numeral.exponentText, hne]

theorem numeralOf_with (negative sign : Bool) (s : Scientific) :
    { numeralOf sign s with negative := negative } = numeralOf negative s := by
  unfold numeralOf
  dsimp only
  split
  · split
    · rfl
    · split <;> rfl
  · rfl

theorem text_numeralOf (negative : Bool) (s : Scientific) : (numeralOf negative s).text =
    (if negative then ['-'] else []) ++ (numeralOf false s).text := by
  rw [← numeralOf_with negative false s, ← numeralOf_with false false s]
  simp only [Numeral.text, Bool.false_eq_true, if_false, List.nil_append, List.append_assoc]
  rfl

/-- A positive number is printed as the number of its fewest digits. -/
theorem toList_floatText (negative : Bool) (hm : m ≠ 0) (e : Int) :
    (floatText (.finite negative m e)).toList =
      (numeralOf negative (shortest .toEven m e)).text := by
  have hsign : (if negative then "-" else "").toList = if negative then ['-'] else [] := by
    cases negative <;> rfl
  rw [floatText]
  dsimp only
  rw [if_neg hm, text_numeralOf]
  generalize shortest .toEven m e = s
  split
  · next h => rw [String.append_assoc, String.toList_append, hsign, toList_positional s h]
  · next h =>
    rw [String.toList_append, hsign, toList_withExponent _ _ Nat.toDigits_ne_nil, numeralOf]
    dsimp only
    rw [if_neg h]

/-! ## What is read back -/

/-- The first digit does not stand higher than the number. -/
theorem pow_le_rational (hs : s.digits ≠ 0) :
    (10 : ℚ) ^ (s.exponent + (Nat.toDigits 10 s.digits).length - 1) ≤ s.rational := by
  have hpos : 0 < (Nat.toDigits 10 s.digits).length := Nat.length_toDigits_pos
  have hle : 10 ^ ((Nat.toDigits 10 s.digits).length - 1) ≤ s.digits :=
    Number.pow_le_of_digitCount (Nat.pos_of_ne_zero hs)
  have hexponent : s.exponent + ((Nat.toDigits 10 s.digits).length : Int) - 1 =
      ((Nat.toDigits 10 s.digits).length - 1 : Nat) + s.exponent := by
    omega
  rw [hexponent, zpow_add₀ (by norm_num), zpow_natCast, Scientific.rational]
  exact mul_le_mul_of_nonneg_right (by exact_mod_cast hle) (by positivity)

/-- A decimal that is not too large is printed as a number with a value. -/
theorem exists_value?_of_lt (negative : Bool) (hs : s.digits ≠ 0) (h : s.rational * slack < overflow) :
    ∃ q, (numeralOf negative s).value? = some q := by
  have hp := prints_numeralOf negative hs
  refine Numeral.exists_value? ?_ ?_ (by rwa [hp.magnitude])
  · calc digitsValue 0 (numeralOf negative s).whole
        ≤ (0 + 1) * 10 ^ (numeralOf negative s).whole.length :=
          (digitsValue_lt hp.wellFormed.whole 0).le
      _ ≤ 1 * 10 ^ 16 := Nat.mul_le_mul_left 1 (Nat.pow_le_pow_right (by decide) hp.whole)
      _ ≤ maxNat64 := by decide
  · have hpow : (10 : ℚ) ^ (s.exponent + (Nat.toDigits 10 s.digits).length - 1) < 10 ^ (309 : Int) := by
      refine (pow_le_rational hs).trans_lt (lt_of_le_of_lt ?_ (h.trans overflow_lt))
      exact le_mul_of_one_le_right (by rw [Scientific.rational]; positivity) one_le_slack
    have hlt := (zpow_lt_zpow_iff_right₀ (by norm_num)).mp hpow
    exact hp.power.trans (max_le (by decide) (by rw [maxExponent]; omega))

/-- Below the three greatest mantissas of the greatest exponent there is room for the roundings. -/
theorem slack_lt (h : Formed m e) (hroom : m + 3 < 2 * Binary64.leadingBit ∨ e ≤ 970) :
    ((m : ℚ) + 1 / 2) * 2 ^ e * slack < overflow := by
  have hmono {a b : ℚ} (ha : (m : ℚ) + 1 / 2 ≤ a) (hb : (2 : ℚ) ^ e ≤ b) :
      ((m : ℚ) + 1 / 2) * 2 ^ e * slack ≤ a * b * slack := by
    have hzero : (0 : ℚ) ≤ m + 1 / 2 := by positivity
    exact mul_le_mul_of_nonneg_right (mul_le_mul ha hb (by positivity) (hzero.trans ha))
      (zero_le_one.trans one_le_slack)
  have hpos : (0 : ℚ) < 2 ^ (970 : Int) := zpow_pos two_pos 970
  have hlt := h.lt
  rw [Binary64.leadingBit] at hlt hroom
  rcases hroom with hm | he
  · have hmq : (m : ℚ) + 4 ≤ 2 ^ 53 := by exact_mod_cast (by omega : m + 4 ≤ 2 ^ 53)
    have heq : (2 : ℚ) ^ e ≤ 2 ^ (970 : Int) * 2 := by
      rw [← zpow_add_one₀ two_ne_zero]
      exact zpow_le_zpow_right₀ one_le_two h.greatest
    refine (hmono (by linarith : (m : ℚ) + 1 / 2 ≤ 2 ^ 53 - 7 / 2) heq).trans_lt ?_
    rw [overflow, slack]
    generalize (2 : ℚ) ^ (970 : Int) = z at *
    norm_num
    linarith
  · have hmq : (m : ℚ) + 1 ≤ 2 ^ 53 := by exact_mod_cast (by omega : m + 1 ≤ 2 ^ 53)
    refine (hmono (by linarith : (m : ℚ) + 1 / 2 ≤ 2 ^ 53 - 1 / 2)
      (zpow_le_zpow_right₀ one_le_two he)).trans_lt ?_
    rw [overflow, slack]
    generalize (2 : ℚ) ^ (970 : Int) = z at *
    norm_num
    linarith

/-- Whatever is in the format is printed as a number with a value. -/
theorem exists_value?_of_formed (negative : Bool) (hm : 0 < m) (h : Formed m e) :
    ∃ q, (numeralOf negative (shortest .toEven m e)).value? = some q := by
  obtain ⟨hdigits, hle⟩ := Number.shortest_spec .toEven hm e
  by_cases hroom : m + 3 < 2 * Binary64.leadingBit ∨ e ≤ 970
  · refine exists_value?_of_lt negative hdigits (lt_of_le_of_lt ?_ (slack_lt h hroom))
    exact mul_le_mul_of_nonneg_right hle (zero_le_one.trans one_le_slack)
  · -- for the three that are left, the product happens to be rounded down
    have hgreatest : ∀ negative : Bool, ∀ k < 3,
        (numeralOf negative (shortest .toEven (2 * Binary64.leadingBit - 1 - k) 971)).value?.isSome =
          true := by
      decide +kernel
    obtain ⟨hm', he⟩ := not_or.mp hroom
    have hlt := h.lt
    have hgreat := h.greatest
    rw [Binary64.greatestExponent] at hgreat
    obtain rfl : e = 971 := by omega
    obtain ⟨k, hk, rfl⟩ : ∃ k < 3, m = 2 * Binary64.leadingBit - 1 - k :=
      ⟨2 * Binary64.leadingBit - 1 - m, by omega, by omega⟩
    exact Option.isSome_iff_exists.mp (hgreatest negative k hk)

end CorpusAnnotator.Json
