import CorpusAnnotator.Json.Document

/-! Numbers as they are written. A number that is well-formed is read back from its characters, up to
whatever follows it. -/
namespace CorpusAnnotator.Json

/-- The part of a number that its exponent makes. -/
def Numeral.exponentText (n : Numeral) : List Char :=
  match n.exponent with
  | none => []
  | some (negative, digits) => 'e' :: (if negative then '-' else '+') :: digits

/-- The part of a number behind its whole digits. -/
def Numeral.fractionText (n : Numeral) : List Char :=
  (if n.fraction = [] then [] else '.' :: n.fraction) ++ n.exponentText

/-- The characters of a number. -/
def Numeral.text (n : Numeral) : List Char :=
  (if n.negative then ['-'] else []) ++ n.whole ++ n.fractionText

def Digits (digits : List Char) : Prop := ∀ c ∈ digits, c.isDigit = true

/-- What a number has to have: digits in all places, and no zero in front of others. -/
structure Numeral.WellFormed (n : Numeral) : Prop where
  whole : Digits n.whole
  nonempty : n.whole ≠ []
  zero : n.whole.head? = some '0' → n.whole.length = 1
  fraction : Digits n.fraction
  exponent : ∀ e ∈ n.exponent, e.2 ≠ [] ∧ Digits e.2

/-- What may follow a number. -/
def Ends (after : List Char) : Prop :=
  ∀ c ∈ after.head?, c.isDigit = false ∧ c ≠ '.' ∧ c ≠ 'e' ∧ c ≠ 'E'

variable {n : Numeral} {digits after : List Char} {c : Char}

theorem Digits.takeWhile (h : Digits digits) (hafter : ∀ c ∈ after.head?, c.isDigit = false) :
    (digits ++ after).takeWhile Char.isDigit = digits := by
  rw [List.takeWhile_append_of_pos h]
  cases after with
  | nil => rw [List.takeWhile_nil, List.append_nil]
  | cons c after =>
    rw [List.takeWhile_cons_of_neg (by simp [hafter c rfl]), List.append_nil]

theorem Digits.dropWhile (h : Digits digits) (hafter : ∀ c ∈ after.head?, c.isDigit = false) :
    (digits ++ after).dropWhile Char.isDigit = after := by
  rw [List.dropWhile_append_of_pos h]
  cases after with
  | nil => rfl
  | cons c after => rw [List.dropWhile_cons_of_neg (by simp [hafter c rfl])]

theorem Ends.digit (h : Ends after) : ∀ c ∈ after.head?, c.isDigit = false :=
  fun c hc => (h c hc).1

namespace Numeral

theorem readExponent_text (h : n.WellFormed) (hafter : Ends after) :
    readExponent { n with exponent := none } (n.exponentText ++ after) = (.number n, after) := by
  obtain ⟨negative, whole, fraction, exponent⟩ := n
  rw [exponentText]
  cases exponent with
  | none =>
    cases after with
    | nil => rfl
    | cons c after =>
      obtain ⟨-, -, he, hE⟩ := hafter c rfl
      exact if_neg (by simp [he, hE])
  | some e =>
    obtain ⟨sign, digits⟩ := e
    obtain ⟨hne, hdigits⟩ := h.exponent _ rfl
    have hsign : Number.splitSign ((if sign then '-' else '+') :: (digits ++ after)) =
        (sign, digits ++ after) := by
      cases sign <;> rfl
    have hempty : digits.isEmpty = false := by simpa using hne
    simp [readExponent, hsign, hdigits.takeWhile hafter.digit, hdigits.dropWhile hafter.digit,
      hempty]

/-- What follows the whole digits is no digit. -/
theorem digit_fractionText (hafter : Ends after) :
    ∀ c ∈ (n.fractionText ++ after).head?, c.isDigit = false := by
  obtain ⟨negative, whole, fraction, exponent⟩ := n
  cases fraction with
  | cons d fraction =>
    rintro c hc
    cases hc
    rfl
  | nil =>
    cases exponent with
    | none => exact hafter.digit
    | some e =>
      rintro c hc
      cases hc
      rfl

theorem digit_exponentText (hafter : Ends after) :
    ∀ c ∈ (n.exponentText ++ after).head?, c.isDigit = false := by
  obtain ⟨negative, whole, fraction, exponent⟩ := n
  exact digit_fractionText (n := ⟨negative, whole, [], exponent⟩) hafter

theorem readFraction_text (h : n.WellFormed) (hafter : Ends after) :
    readFraction { n with fraction := [], exponent := none } (n.fractionText ++ after) =
      (.number n, after) := by
  have hexponent := readExponent_text h hafter
  have hdigit := digit_exponentText (n := n) hafter
  rw [fractionText]
  obtain ⟨negative, whole, fraction, exponent⟩ := n
  cases fraction with
  | nil =>
    rw [if_pos rfl, List.nil_append]
    unfold readFraction
    split
    · next htext =>
      -- no point is left, in front of an exponent or behind the number
      exfalso
      cases exponent with
      | none =>
        rw [exponentText, List.nil_append] at htext
        exact (hafter '.' (by rw [htext]; rfl)).2.1 rfl
      | some e => cases htext
    · exact hexponent
  | cons d fraction =>
    rw [if_neg (List.cons_ne_nil d fraction), List.cons_append, List.cons_append, List.append_assoc]
    have hfraction : Digits (d :: fraction) := h.fraction
    simp only [readFraction, hfraction.takeWhile hdigit, hfraction.dropWhile hdigit]
    exact hexponent

theorem readNumeral_text (h : n.WellFormed) (hafter : Ends after) :
    readNumeral n.negative (n.whole ++ (n.fractionText ++ after)) = (.number n, after) := by
  have hdigit := digit_fractionText (n := n) hafter
  have hempty : n.whole.isEmpty = false := by simpa using h.nonempty
  have hzero : ¬(n.whole.head? = some '0' ∧ 1 < n.whole.length) :=
    fun ⟨hhead, hlength⟩ => absurd (h.zero hhead) (by omega)
  simp only [readNumeral, h.whole.takeWhile hdigit, h.whole.dropWhile hdigit, hempty,
    Bool.false_eq_true, if_false, if_neg hzero]
  exact readFraction_text h hafter

/-- A well-formed number is read back, up to what follows it. -/
theorem readNumber_text (h : n.WellFormed) (hafter : Ends after) :
    readNumber (n.text ++ after) = (.number n, after) := by
  have hread := readNumeral_text h hafter
  rw [text, List.append_assoc, List.append_assoc]
  cases hsign : n.negative with
  | true =>
    rw [hsign] at hread
    exact hread
  | false =>
    rw [hsign] at hread
    obtain ⟨c, whole, hwhole⟩ := List.exists_cons_of_ne_nil h.nonempty
    have hc : c ≠ '-' := by
      rintro rfl
      exact absurd (h.whole '-' (by rw [hwhole]; exact List.mem_cons_self)) (by decide)
    rw [hwhole] at hread ⊢
    unfold readNumber
    split
    · next htext =>
      exact absurd (List.cons.inj htext).1 hc
    · exact hread

theorem text_head (h : n.WellFormed) : ∃ c rest, n.text = c :: rest ∧ (c = '-' ∨ c.isDigit = true) := by
  rw [text]
  cases n.negative with
  | true => exact ⟨'-', _, rfl, .inl rfl⟩
  | false =>
    obtain ⟨c, whole, hwhole⟩ := List.exists_cons_of_ne_nil h.nonempty
    rw [hwhole]
    exact ⟨c, _, rfl, .inr (h.whole c (by rw [hwhole]; exact List.mem_cons_self))⟩

end Numeral

end CorpusAnnotator.Json
