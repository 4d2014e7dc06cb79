import CorpusAnnotator.Number.Integer
import CorpusAnnotator.Proofs.Results

/-! Which texts are whole numbers. What is read is the number that the digits and the sign spell, and
a text is refused unless it spells a number in range. -/
namespace CorpusAnnotator.Number

open Results

/-! ## Spellings -/

/-- The number that digits make, behind those that made `value`. -/
def decimalValue (value : Nat) (digits : List Nat) : Nat :=
  digits.foldl (fun v d => 10 * v + d) value

/-- One digit or more. Zeros may stand in front. -/
inductive DigitsSpell : Nat → List Char → Prop where
  | digits {digits : List Nat} : digits ≠ [] → (∀ d ∈ digits, d < 10) →
      DigitsSpell (decimalValue 0 digits) (digits.map Nat.digitChar)

/-- Digits, perhaps with a plus sign. -/
inductive SpellsNat : Nat → List Char → Prop where
  | unsigned {n : Nat} {text : List Char} : DigitsSpell n text → SpellsNat n text
  | plus {n : Nat} {text : List Char} : DigitsSpell n text → SpellsNat n ('+' :: text)

/-- Digits, perhaps with a sign. -/
inductive SpellsInt : Int → List Char → Prop where
  | nat {n : Nat} {text : List Char} : SpellsNat n text → SpellsInt n text
  | minus {n : Nat} {text : List Char} : DigitsSpell n text → SpellsInt (-(n : Int)) ('-' :: text)

variable {c : Char} {d n value limit : Nat} {beyond : IntegerError} {text rest : List Char}
  {digits : List Nat}

/-! ## Digits -/

theorem digit?_ofNat :
    ∀ k < 58, ∀ d ∈ digit? (Char.ofNat k), d < 10 ∧ Char.ofNat k = d.digitChar := by
  decide

theorem digit?_digitChar (h : d < 10) : digit? d.digitChar = some d := by
  revert d
  decide

theorem digit?_eq_some_iff : digit? c = some d ↔ d < 10 ∧ c = d.digitChar := by
  constructor
  · intro h
    have hlast : c.toNat < 58 := by
      unfold digit? at h
      split at h
      · next hdigit =>
        simp only [Char.isDigit, Bool.and_eq_true, decide_eq_true_eq] at hdigit
        exact Nat.lt_succ_of_le hdigit.2
      · cases h
    have hdigit := digit?_ofNat c.toNat hlast
    rw [Char.ofNat_toNat] at hdigit
    exact hdigit d h
  · rintro ⟨hd, rfl⟩
    exact digit?_digitChar hd

theorem decimalValue_cons (value d : Nat) (digits : List Nat) :
    decimalValue value (d :: digits) = decimalValue (10 * value + d) digits := rfl

theorem le_decimalValue (value : Nat) (digits : List Nat) : value ≤ decimalValue value digits := by
  induction digits generalizing value with
  | nil => exact Nat.le_refl value
  | cons d digits ih =>
    have hle := ih (10 * value + d)
    rw [decimalValue_cons]
    omega

/-- Digits are read as the number that they make, unless it goes past the limit. -/
theorem readDigits_digits (hdigits : ∀ d ∈ digits, d < 10) (hvalue : value ≤ limit) :
    readDigits limit beyond value (digits.map Nat.digitChar) =
      if decimalValue value digits ≤ limit then .ok (decimalValue value digits)
      else .error beyond := by
  induction digits generalizing value with
  | nil => exact (if_pos hvalue).symm
  | cons d digits ih =>
    obtain ⟨hd, hdigits⟩ := List.forall_mem_cons.mp hdigits
    rw [List.map_cons, readDigits, digit?_digitChar hd, decimalValue_cons]
    simp only
    split
    · next hbeyond =>
      -- what goes past the limit stays past it
      have hle := le_decimalValue (10 * value + d) digits
      rw [if_neg (by omega)]
    · next hwithin => exact ih hdigits (Nat.le_of_not_lt hwithin)

theorem exists_digits_of_readDigits (h : readDigits limit beyond value text = .ok n) :
    ∃ digits : List Nat, (∀ d ∈ digits, d < 10) ∧ text = digits.map Nat.digitChar := by
  induction text generalizing value with
  | nil => exact ⟨[], by simp, rfl⟩
  | cons c rest ih =>
    rw [readDigits] at h
    cases hc : digit? c with
    | none =>
      rw [hc] at h
      cases h
    | some d =>
      rw [hc] at h
      simp only at h
      split at h
      · cases h
      · obtain ⟨digits, hdigits, rfl⟩ := ih h
        obtain ⟨hd, rfl⟩ := digit?_eq_some_iff.mp hc
        exact ⟨d :: digits, List.forall_mem_cons.mpr ⟨hd, hdigits⟩, rfl⟩

theorem readDigits_eq_ok_iff (hne : text ≠ []) :
    readDigits limit beyond 0 text = .ok n ↔ DigitsSpell n text ∧ n ≤ limit := by
  constructor
  · intro h
    obtain ⟨digits, hdigits, rfl⟩ := exists_digits_of_readDigits h
    rw [readDigits_digits hdigits (Nat.zero_le limit)] at h
    split at h
    · next hle =>
      cases h
      exact ⟨.digits (fun hnil => hne (congrArg _ hnil)) hdigits, hle⟩
    · cases h
  · rintro ⟨⟨-, hdigits⟩, hle⟩
    rw [readDigits_digits hdigits (Nat.zero_le limit), if_pos hle]

/-! ## Signs -/

theorem DigitsSpell.ne_nil (h : DigitsSpell n text) : text ≠ [] := by
  cases h with
  | digits hne _ => exact fun hnil => hne (List.map_eq_nil_iff.mp hnil)

theorem DigitsSpell.digit?_ne_none (h : DigitsSpell n (c :: rest)) : digit? c ≠ none := by
  generalize htext : c :: rest = text at h
  cases h with
  | digits _ hdigits =>
    obtain ⟨d, digits, rfl, rfl, -⟩ := List.map_eq_cons_iff.mp htext.symm
    rw [digit?_digitChar (hdigits d List.mem_cons_self)]
    exact Option.some_ne_none d

theorem spellsNat_plus_iff : SpellsNat n ('+' :: rest) ↔ DigitsSpell n rest := by
  constructor
  · intro h
    cases h with
    | unsigned h => exact absurd rfl h.digit?_ne_none
    | plus h => exact h
  · exact .plus

theorem spellsNat_iff (h : ∀ rest, text ≠ '+' :: rest) : SpellsNat n text ↔ DigitsSpell n text := by
  constructor
  · intro hspells
    cases hspells with
    | unsigned hdigits => exact hdigits
    | plus _ => exact absurd rfl (h _)
  · exact .unsigned

theorem readNat_eq_ok_iff : readNat limit text = .ok n ↔ SpellsNat n text ∧ n ≤ limit := by
  unfold readNat
  split
  · -- nothing is no number, and neither is a sign by itself
    refine iff_of_false (by simp) fun ⟨h, _⟩ => ?_
    exact ((spellsNat_iff (by simp)).mp h).ne_nil rfl
  · refine iff_of_false (by simp) fun ⟨h, _⟩ => ?_
    exact (spellsNat_plus_iff.mp h).ne_nil rfl
  · next rest hne => rw [readDigits_eq_ok_iff hne, spellsNat_plus_iff]
  · next hnil _ hplus => rw [readDigits_eq_ok_iff hnil, spellsNat_iff hplus]

/-- A text spells one number at most. -/
theorem SpellsNat.unique {m : Nat} (h : SpellsNat m text) (h' : SpellsNat n text) : m = n := by
  have hm := readNat_eq_ok_iff.mpr ⟨h, Nat.le_max_left m n⟩
  have hn := readNat_eq_ok_iff.mpr ⟨h', Nat.le_max_right m n⟩
  exact Except.ok.inj (hm.symm.trans hn)

theorem spellsInt_minus_iff {n : Int} :
    SpellsInt n ('-' :: rest) ↔ ∃ k : Nat, DigitsSpell k rest ∧ -(k : Int) = n := by
  constructor
  · intro h
    generalize htext : '-' :: rest = text at h
    cases h with
    | nat h =>
      subst htext
      exact absurd rfl ((spellsNat_iff (by simp)).mp h).digit?_ne_none
    | minus h =>
      obtain rfl := (List.cons.inj htext).2
      exact ⟨_, h, rfl⟩
  · rintro ⟨k, h, rfl⟩
    exact .minus h

theorem spellsInt_iff {n : Int} (h : ∀ rest, text ≠ '-' :: rest) :
    SpellsInt n text ↔ ∃ k : Nat, SpellsNat k text ∧ (k : Int) = n := by
  constructor
  · intro hspells
    cases hspells with
    | nat hspells => exact ⟨_, hspells, rfl⟩
    | minus _ => exact absurd rfl (h _)
  · rintro ⟨k, h, rfl⟩
    exact .nat h

/-- A text is read as a number just where it spells one that is in range. -/
theorem readInt_eq_ok_iff {n : Int} :
    readInt limit text = .ok n ↔ SpellsInt n text ∧ -((limit : Int) + 1) ≤ n ∧ n ≤ limit := by
  unfold readInt
  split
  · refine iff_of_false (by simp) fun ⟨h, _⟩ => ?_
    obtain ⟨k, hdigits, -⟩ := spellsInt_minus_iff.mp h
    exact hdigits.ne_nil rfl
  · next rest hne =>
    rw [map_eq_ok_iff, spellsInt_minus_iff]
    constructor
    · rintro ⟨_, hread, rfl⟩
      obtain ⟨k, hk, hn⟩ := bind_eq_ok_iff.mp hread
      cases hn
      obtain ⟨hdigits, hle⟩ := (readDigits_eq_ok_iff hne).mp hk
      exact ⟨⟨k, hdigits, rfl⟩, by omega, by omega⟩
    · rintro ⟨⟨k, hdigits, rfl⟩, hle, -⟩
      have hread : readDigits (limit + 1) .tooSmall 0 rest = .ok k :=
        (readDigits_eq_ok_iff hne).mpr ⟨hdigits, by omega⟩
      exact ⟨k, bind_eq_ok_iff.mpr ⟨k, hread, rfl⟩, rfl⟩
  · next hminus =>
    rw [map_eq_ok_iff, spellsInt_iff hminus]
    constructor
    · rintro ⟨k, hread, hk⟩
      have hk : (k : Int) = n := hk
      subst hk
      obtain ⟨hspells, hle⟩ := readNat_eq_ok_iff.mp hread
      exact ⟨⟨k, hspells, rfl⟩, by omega, by omega⟩
    · rintro ⟨⟨k, hspells, rfl⟩, -, hle⟩
      exact ⟨k, readNat_eq_ok_iff.mpr ⟨hspells, by omega⟩, rfl⟩

/-- A decimal number that a signed word of 64 bits holds. -/
def SpellsInt64 (n : Int) (text : List Char) : Prop :=
  SpellsInt n text ∧ -0x8000000000000000 ≤ n ∧ n ≤ 0x7fffffffffffffff

theorem readInt64_eq_ok_iff {n : Int} : readInt64 text = .ok n ↔ SpellsInt64 n text := by
  rw [readInt64, readInt_eq_ok_iff, SpellsInt64, maxInt64]
  refine and_congr_right fun _ => ?_
  omega

theorem exists_readInt64_error_iff :
    (∃ e, readInt64 text = .error e) ↔ ¬ ∃ n, SpellsInt64 n text := by
  constructor
  · rintro ⟨e, he⟩ ⟨n, hn⟩
    rw [readInt64_eq_ok_iff.mpr hn] at he
    cases he
  · intro hno
    cases hread : readInt64 text with
    | ok n => exact absurd ⟨n, readInt64_eq_ok_iff.mp hread⟩ hno
    | error e => exact ⟨e, rfl⟩

end CorpusAnnotator.Number
