import CorpusAnnotator.Proofs.TextFormat.Grammar

/-! What every phrase has in common: its brackets match, and behind a separator there stands neither
another separator nor the end of a list. -/
namespace CorpusAnnotator.TextFormat

/-! ## Brackets -/

/-- The mark that a mark of any of the three kinds of brackets is closed by. -/
def Mark.closer? : Mark → Option Mark
  | .openBrace => some .closeBrace
  | .openAngle => some .closeAngle
  | .openBracket => some .closeBracket
  | _ => none

def Mark.closes (m : Mark) : Bool :=
  m = .closeBrace || m = .closeAngle || m = .closeBracket

/-- The closing marks that are owed after one more token, the one that is due first in front. A
closing mark that is not due has no result. -/
def owedAfter (owed : List Mark) (t : Token) : Option (List Mark) :=
  match t with
  | .mark m =>
    match m.closer? with
    | some close => some (close :: owed)
    | none => if m.closes then (if owed.head? = some m then some owed.tail else none) else some owed
  | _ => some owed

/-- Every bracket is closed by its own kind, and every closing mark closes a bracket. -/
def Balanced (ts : List Token) : Prop :=
  ts.foldlM owedAfter [] = some []

instance : DecidablePred Balanced := fun ts =>
  inferInstanceAs (Decidable (ts.foldlM owedAfter [] = some []))

variable {owed : List Mark}

@[simp] theorem owedAfter_word (text : String) : owedAfter owed (.word text) = some owed := rfl

@[simp] theorem owedAfter_literal (text : String) :
    owedAfter owed (.literal text) = some owed := rfl

@[simp] theorem owedAfter_opening (d : Delimiter) :
    owedAfter owed (.mark d.opening) = some (d.closing :: owed) := by
  cases d <;> rfl

@[simp] theorem owedAfter_closing (d : Delimiter) :
    owedAfter (d.closing :: owed) (.mark d.closing) = some owed := by
  cases d <;> rfl

@[simp] theorem owedAfter_openBracket :
    owedAfter owed (.mark .openBracket) = some (.closeBracket :: owed) := rfl

@[simp] theorem owedAfter_closeBracket :
    owedAfter (.closeBracket :: owed) (.mark .closeBracket) = some owed := rfl

@[simp] theorem owedAfter_colon : owedAfter owed (.mark .colon) = some owed := rfl

@[simp] theorem owedAfter_comma : owedAfter owed (.mark .comma) = some owed := rfl

@[simp] theorem NamePhrase.foldlM_owedAfter (n : NamePhrase) :
    n.tokens.foldlM owedAfter owed = some owed := by
  cases n <;> rfl

@[simp] theorem Separator.foldlM_owedAfter (s : Separator) :
    s.tokens.foldlM owedAfter owed = some owed := by
  cases s <;> rfl

@[simp] theorem foldlM_owedAfter_colonTokens (colon : Bool) :
    (colonTokens colon).foldlM owedAfter owed = some owed := by
  cases colon <;> rfl

theorem foldlM_owedAfter_map_literal (texts : List String) :
    (texts.map Token.literal).foldlM owedAfter owed = some owed := by
  induction texts with
  | nil => rfl
  | cons text texts ih => exact ih

@[simp] theorem ScalarPhrase.foldlM_owedAfter (s : ScalarPhrase) :
    s.tokens.foldlM owedAfter owed = some owed := by
  cases s with
  | word text => rfl
  | literals first more => exact foldlM_owedAfter_map_literal more

mutual

/-- A phrase closes what it opens and nothing else, whatever is owed around it. -/
theorem MessagePhrase.foldlM_owedAfter (p : MessagePhrase) (owed : List Mark) :
    p.tokens.foldlM owedAfter owed = some owed := by
  cases p with
  | empty => rfl
  | field n b s p => simp [MessagePhrase.tokens, b.foldlM_owedAfter, p.foldlM_owedAfter]

theorem BodyPhrase.foldlM_owedAfter (b : BodyPhrase) (owed : List Mark) :
    b.tokens.foldlM owedAfter owed = some owed := by
  cases b with
  | nested colon d p => simp [BodyPhrase.tokens, p.foldlM_owedAfter]
  | emptyList colon => simp [BodyPhrase.tokens]
  | list colon l => simp [BodyPhrase.tokens, l.foldlM_owedAfter]
  | scalar s => simp [BodyPhrase.tokens]

theorem ItemsPhrase.foldlM_owedAfter (l : ItemsPhrase) (owed : List Mark) :
    l.tokens.foldlM owedAfter owed = some owed := by
  cases l with
  | last i => exact i.foldlM_owedAfter owed
  | more i l => simp [ItemsPhrase.tokens, i.foldlM_owedAfter, l.foldlM_owedAfter]

theorem ItemPhrase.foldlM_owedAfter (i : ItemPhrase) (owed : List Mark) :
    i.tokens.foldlM owedAfter owed = some owed := by
  cases i with
  | nested d p => simp [ItemPhrase.tokens, p.foldlM_owedAfter]
  | scalar s => simp [ItemPhrase.tokens]

end

theorem MessagePhrase.balanced (p : MessagePhrase) : Balanced p.tokens :=
  p.foldlM_owedAfter []

/-! ## Separators -/

def Token.isSeparator (t : Token) : Bool :=
  t = .mark .comma || t = .mark .semicolon

/-- What may not come right behind a separator. -/
def Token.endsItem (t : Token) : Bool :=
  t.isSeparator || t = .mark .closeBracket

/-- Nothing that may not come behind a separator does so; `after` says that one stands in front. -/
def Separated (after : Bool) : List Token → Prop
  | [] => True
  | t :: ts => (after = true → t.endsItem = false) ∧ Separated t.isSeparator ts

variable {ts : List Token} {after : Bool}

theorem Separated.weaken (h : Separated true ts) : Separated after ts := by
  cases ts with
  | nil => exact trivial
  | cons t ts => exact ⟨fun _ => h.1 rfl, h.2⟩

theorem Separated.not_isInfix (h : Separated after ts) {s t : Token} (hs : s.isSeparator = true)
    (ht : t.endsItem = true) : ¬ [s, t] <:+: ts := by
  rintro ⟨before, behind, rfl⟩
  -- every token in front decides anew whether a separator stands there
  induction before generalizing after with
  | nil => exact absurd (h.2.1 hs) (by simp [ht])
  | cons u before ih => exact ih h.2

theorem NamePhrase.separated (n : NamePhrase) (h : Separated false ts) :
    Separated after (n.tokens ++ ts) := by
  cases n with
  | word text => exact ⟨fun _ => rfl, h⟩
  | extension text => exact ⟨fun _ => rfl, fun _ => rfl, nofun, h⟩

theorem Separator.separated (s : Separator) (h : Separated true ts) :
    Separated false (s.tokens ++ ts) := by
  cases s with
  | nothing => exact h.weaken
  | comma => exact ⟨nofun, h⟩
  | semicolon => exact ⟨nofun, h⟩

theorem separated_colonTokens (colon : Bool) (h : Separated false ts) :
    Separated false (colonTokens colon ++ ts) := by
  cases colon with
  | false => exact h
  | true => exact ⟨nofun, h⟩

theorem separated_map_literal (texts : List String) (h : Separated false ts) :
    Separated false (texts.map Token.literal ++ ts) := by
  induction texts with
  | nil => exact h
  | cons text texts ih => exact ⟨nofun, ih⟩

theorem ScalarPhrase.separated (s : ScalarPhrase) (h : Separated false ts) :
    Separated after (s.tokens ++ ts) := by
  cases s with
  | word text => exact ⟨fun _ => rfl, h⟩
  | literals first more => exact ⟨fun _ => rfl, separated_map_literal more h⟩

theorem Delimiter.separated_opening (d : Delimiter) (h : Separated false ts) :
    Separated after (.mark d.opening :: ts) := by
  cases d <;> exact ⟨fun _ => rfl, h⟩

theorem Delimiter.separated_closing (d : Delimiter) (h : Separated false ts) :
    Separated after (.mark d.closing :: ts) := by
  cases d <;> exact ⟨fun _ => rfl, h⟩

mutual

theorem MessagePhrase.separated (p : MessagePhrase) {ts : List Token} {after : Bool}
    (h : Separated true ts) : Separated after (p.tokens ++ ts) := by
  cases p with
  | empty => exact h.weaken
  | field n b s p =>
    simp only [MessagePhrase.tokens, List.append_assoc]
    exact n.separated (b.separated (s.separated (p.separated h)))

theorem BodyPhrase.separated (b : BodyPhrase) {ts : List Token} (h : Separated false ts) :
    Separated false (b.tokens ++ ts) := by
  cases b with
  | nested colon d p =>
    simp only [BodyPhrase.tokens, List.append_assoc, List.cons_append, List.nil_append]
    exact separated_colonTokens colon
      (d.separated_opening (p.separated (d.separated_closing h)))
  | emptyList colon =>
    simp only [BodyPhrase.tokens, List.append_assoc, List.cons_append, List.nil_append]
    exact separated_colonTokens colon ⟨nofun, nofun, h⟩
  | list colon l =>
    simp only [BodyPhrase.tokens, List.append_assoc, List.cons_append, List.nil_append]
    exact separated_colonTokens colon ⟨nofun, l.separated ⟨nofun, h⟩⟩
  | scalar s =>
    simp only [BodyPhrase.tokens, List.cons_append]
    exact ⟨nofun, s.separated h⟩

theorem ItemsPhrase.separated (l : ItemsPhrase) {ts : List Token} {after : Bool}
    (h : Separated false ts) : Separated after (l.tokens ++ ts) := by
  cases l with
  | last i => exact i.separated h
  | more i l =>
    simp only [ItemsPhrase.tokens, List.append_assoc, List.cons_append]
    exact i.separated ⟨nofun, l.separated h⟩

theorem ItemPhrase.separated (i : ItemPhrase) {ts : List Token} {after : Bool}
    (h : Separated false ts) : Separated after (i.tokens ++ ts) := by
  cases i with
  | nested d p =>
    simp only [ItemPhrase.tokens, List.append_assoc, List.cons_append, List.nil_append]
    exact d.separated_opening (p.separated (d.separated_closing h))
  | scalar s => exact s.separated h

end

theorem MessagePhrase.separated_tokens (p : MessagePhrase) : Separated false p.tokens := by
  have h : Separated false (p.tokens ++ []) := p.separated trivial
  rwa [List.append_nil] at h

end CorpusAnnotator.TextFormat
