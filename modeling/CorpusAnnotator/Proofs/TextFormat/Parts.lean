import CorpusAnnotator.Proofs.TextFormat.Grammar
import CorpusAnnotator.TextFormat.Parser

/-! The readers of parts without nesting: marks, names and scalars. Each of them reads what the
phrases of its kind derive, and nothing else. -/
namespace CorpusAnnotator.TextFormat

open Text (Left)

/-- Tokens without the lines that they stand on. -/
def bare (ts : List Located) : List Token := ts.map Located.token

@[simp] theorem bare_nil : bare [] = [] := rfl

@[simp] theorem bare_cons (t : Located) (ts : List Located) :
    bare (t :: ts) = t.token :: bare ts := rfl

theorem exists_of_bare_eq_cons {ts : List Located} {t : Token} {tail : List Token}
    (h : bare ts = t :: tail) : ∃ u rest, ts = u :: rest ∧ u.token = t ∧ bare rest = tail :=
  List.map_eq_cons_iff.mp h

variable {last : Nat} {ts rest : List Located} {tail : List Token}

/-! ## Marks -/

theorem skip_of_head {m : Mark} (h : bare ts = .mark m :: tail) :
    ∃ rest hr, skip m ts = ⟨true, rest, hr⟩ ∧ bare rest = tail := by
  obtain ⟨u, rest, rfl, hu, hrest⟩ := exists_of_bare_eq_cons h
  exact ⟨rest, _, by simp only [skip, if_pos hu]; rfl, hrest⟩

theorem skip_of_head_ne {m : Mark} (h : (bare ts).head? ≠ some (.mark m)) :
    skip m ts = .unread false := by
  cases ts with
  | nil => rfl
  | cons t rest =>
    have ht : t.token ≠ .mark m := by simpa using h
    simp only [skip, if_neg ht]

/-- Skipping tells whether the mark was there, and leaves what was behind it. -/
theorem bare_eq_of_skip (m : Mark) (ts : List Located) :
    bare ts = (if (skip m ts).value then [.mark m] else []) ++ bare (skip m ts).rest := by
  cases ts with
  | nil => rfl
  | cons t rest =>
    by_cases ht : t.token = .mark m
    · simp [skip, ht]
    · simp [skip, ht]

/-- A list that no separator stands in front of. -/
def NoSeparator (tail : List Token) : Prop :=
  tail.head? ≠ some (.mark .comma) ∧ tail.head? ≠ some (.mark .semicolon)

theorem skipSeparator_complete (s : Separator) (h : bare ts = s.tokens ++ tail)
    (ht : NoSeparator tail) : bare (skipSeparator ts).rest = tail := by
  obtain ⟨hcomma, hsemicolon⟩ := ht
  cases s with
  | nothing =>
    -- no token is taken by either skip
    have h : bare ts = tail := h
    subst h
    have hskip : (skip .semicolon (skip .comma ts).rest).rest = ts := by
      rw [skip_of_head_ne hcomma, Left.rest_unread, skip_of_head_ne hsemicolon, Left.rest_unread]
    simp [skipSeparator, skip_of_head_ne hcomma, hskip]
  | comma =>
    obtain ⟨rest, hr, hskip, hrest⟩ := skip_of_head h
    simpa [skipSeparator, hskip] using hrest
  | semicolon =>
    have hne : (bare ts).head? ≠ some (.mark .comma) := by
      rw [h]
      simp [Separator.tokens]
    obtain ⟨rest, hr, hskip, hrest⟩ := skip_of_head h
    have hskip' : (skip .semicolon (skip .comma ts).rest).rest = rest := by
      rw [skip_of_head_ne hne, Left.rest_unread, hskip]
    simpa [skipSeparator, skip_of_head_ne hne, hskip'] using hrest

theorem skipSeparator_sound (ts : List Located) :
    ∃ s : Separator, bare ts = s.tokens ++ bare (skipSeparator ts).rest := by
  have hcomma := bare_eq_of_skip .comma ts
  unfold skipSeparator
  cases hskip : skip .comma ts with
  | mk comma rest hr =>
    rw [hskip] at hcomma
    cases comma with
    | true => exact ⟨.comma, hcomma⟩
    | false =>
      have hsemicolon := bare_eq_of_skip .semicolon rest
      have hcomma : bare ts = bare rest := hcomma
      rw [hcomma]
      cases hskip' : skip .semicolon rest with
      | mk semicolon rest' hr' =>
        rw [hskip'] at hsemicolon
        simp only [hskip']
        cases semicolon with
        | true => exact ⟨.semicolon, hsemicolon⟩
        | false => exact ⟨.nothing, hsemicolon⟩

theorem opens?_eq_some_iff {t : Located} {close : Mark} :
    opens? t = some close ↔ ∃ d : Delimiter, t.token = .mark d.opening ∧ close = d.closing := by
  constructor
  · intro h
    unfold opens? at h
    split at h
    · next m hm =>
      cases m <;> simp only [Mark.closing?, Option.some.injEq, reduceCtorEq] at h
      · exact ⟨.braces, hm, h.symm⟩
      · exact ⟨.angles, hm, h.symm⟩
    · cases h
  · rintro ⟨d, ht, rfl⟩
    cases d <;> simp [opens?, ht, Delimiter.opening, Delimiter.closing, Mark.closing?]

/-! ## Names -/

theorem fieldName_complete (last : Nat) (n : NamePhrase) (h : bare ts = n.tokens ++ tail) :
    ∃ rest hr, fieldName last ts = .ok ⟨n.name, rest, hr⟩ ∧ bare rest = tail := by
  cases n with
  | word text =>
    obtain ⟨t, rest, rfl, ht, hrest⟩ := exists_of_bare_eq_cons h
    exact ⟨rest, _, by simp only [fieldName, ht]; rfl, hrest⟩
  | extension text =>
    obtain ⟨t, ts, rfl, ht, h⟩ := exists_of_bare_eq_cons h
    obtain ⟨u, ts, rfl, hu, h⟩ := exists_of_bare_eq_cons h
    obtain ⟨v, rest, rfl, hv, hrest⟩ := exists_of_bare_eq_cons h
    exact ⟨rest, _, by simp only [fieldName, ht, hu, hv]; rfl, hrest⟩

theorem fieldName_sound {name : String} {hr} (h : fieldName last ts = .ok ⟨name, rest, hr⟩) :
    ∃ n : NamePhrase, n.name = name ∧ bare ts = n.tokens ++ bare rest := by
  unfold fieldName at h
  split at h
  · cases h
  · next t ts =>
    split at h
    · next ht =>
      cases h
      exact ⟨.word name, rfl, by simp [ht, NamePhrase.tokens]⟩
    · next ht =>
      split at h
      · next u v ts =>
        split at h
        · next text hu hv =>
          cases h
          exact ⟨.extension text, rfl, by simp [ht, hu, hv, NamePhrase.tokens]⟩
        · cases h
      · cases h
    · cases h

/-! ## Scalars -/

/-- A list that does not go on with a literal. -/
def NoLiteral (tail : List Token) : Prop :=
  ∀ text, tail.head? ≠ some (.literal text)

theorem literals_complete (texts : List String) (h : bare ts = texts.map .literal ++ tail)
    (ht : NoLiteral tail) :
    ∃ rest hr, literals ts = ⟨texts.foldr (· ++ ·) "", rest, hr⟩ ∧ bare rest = tail := by
  induction texts generalizing ts with
  | nil =>
    -- what stands behind the literals is none, so the reader stops in front of it
    have h : bare ts = tail := h
    subst h
    refine ⟨ts, Nat.le_refl _, ?_, rfl⟩
    cases ts with
    | nil => rfl
    | cons t rest =>
      unfold literals
      split
      · next text hlit => exact absurd (congrArg some hlit) (ht text)
      · rfl
  | cons text texts ih =>
    obtain ⟨t, ts, rfl, hlit, h⟩ := exists_of_bare_eq_cons h
    obtain ⟨rest, hr, hmore, hrest⟩ := ih h
    refine ⟨rest, Nat.le_succ_of_le hr, ?_, hrest⟩
    unfold literals
    simp only [hlit, hmore, List.foldr_cons]

theorem literals_sound (ts : List Located) :
    ∃ texts : List String, (literals ts).value = texts.foldr (· ++ ·) "" ∧
      bare ts = texts.map .literal ++ bare (literals ts).rest := by
  induction ts with
  | nil => exact ⟨[], rfl, rfl⟩
  | cons t ts ih =>
    unfold literals
    split
    · next text hlit =>
      obtain ⟨texts, hvalue, hts⟩ := ih
      exact ⟨text :: texts, by simp [hvalue], by simp [hlit, hts]⟩
    · exact ⟨[], rfl, rfl⟩

theorem scalar_complete (last : Nat) (s : ScalarPhrase) (h : bare ts = s.tokens ++ tail)
    (ht : NoLiteral tail) :
    ∃ rest hr, scalar last ts = .ok ⟨s.text, rest, hr⟩ ∧ bare rest = tail := by
  cases s with
  | word text =>
    obtain ⟨t, rest, rfl, hword, hrest⟩ := exists_of_bare_eq_cons h
    exact ⟨rest, _, by simp only [scalar, hword]; rfl, hrest⟩
  | literals first more =>
    obtain ⟨t, ts, rfl, hlit, h⟩ := exists_of_bare_eq_cons h
    obtain ⟨rest, hr, hmore, hrest⟩ := literals_complete more h ht
    refine ⟨rest, Nat.lt_succ_of_le hr, ?_, hrest⟩
    simp only [scalar, hlit, hmore, ScalarPhrase.text]

theorem scalar_sound {text : String} {hr} (h : scalar last ts = .ok ⟨text, rest, hr⟩) :
    ∃ s : ScalarPhrase, s.text = text ∧ bare ts = s.tokens ++ bare rest := by
  unfold scalar at h
  split at h
  · cases h
  · next t ts =>
    split at h
    · next hword =>
      cases h
      exact ⟨.word text, rfl, by simp [hword, ScalarPhrase.tokens]⟩
    · next first hlit =>
      cases h
      obtain ⟨texts, hvalue, hts⟩ := literals_sound ts
      exact ⟨.literals first texts, by simp [ScalarPhrase.text, hvalue],
        by simp [hlit, ScalarPhrase.tokens, hts]⟩
    · cases h

end CorpusAnnotator.TextFormat
