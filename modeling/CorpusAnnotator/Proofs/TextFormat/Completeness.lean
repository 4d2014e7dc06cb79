import CorpusAnnotator.Proofs.Results
import CorpusAnnotator.Proofs.TextFormat.Parts

/-! What a phrase derives is accepted by the reader of messages, which gives back what the phrase
denotes. The reader looks one token ahead, so each lemma says what may stand behind its phrase. -/
namespace CorpusAnnotator.TextFormat

open Results
open Text (Left)

variable {last : Nat} {ts rest : List Located} {tail tail' : List Token}

/-! ## The seams between phrases -/

/-- The mark that closes a message, where one has to. -/
def closingTokens (close : Option Delimiter) : List Token :=
  (close.map Delimiter.closing).toList.map .mark

/-- What may stand behind a field and its separator. -/
structure AfterField (tail : List Token) : Prop where
  noLiteral : NoLiteral tail
  noSeparator : NoSeparator tail

theorem NamePhrase.afterField (n : NamePhrase) (tail : List Token) :
    AfterField (n.tokens ++ tail) := by
  cases n <;> exact ⟨nofun, nofun, nofun⟩

theorem afterField_closing {close : Option Delimiter} (h : close = none → tail = []) :
    AfterField (closingTokens close ++ tail) := by
  cases close with
  | none =>
    rw [h rfl]
    exact ⟨nofun, nofun, nofun⟩
  | some d => cases d <;> exact ⟨nofun, nofun, nofun⟩

theorem MessagePhrase.afterField (p : MessagePhrase) (h : AfterField tail) :
    AfterField (p.tokens ++ tail) := by
  cases p with
  | empty => exact h
  | field n b s p =>
    rw [MessagePhrase.tokens, List.append_assoc]
    exact n.afterField _

theorem Separator.noLiteral_tokens (s : Separator) (h : NoLiteral tail) :
    NoLiteral (s.tokens ++ tail) := by
  cases s with
  | nothing => exact h
  | comma => exact nofun
  | semicolon => exact nofun

/-- A field's name is no closing mark. -/
theorem NamePhrase.head_ne_closing (n : NamePhrase) (close : Option Delimiter) {t : Located}
    (h : bare (t :: ts) = n.tokens ++ tail) :
    (close.map Delimiter.closing).map Token.mark ≠ some t.token := by
  have ht : some t.token = (n.tokens ++ tail).head? := by rw [← h]; rfl
  rw [ht]
  cases n <;> cases close with
  | none => nofun
  | some d => cases d <;> nofun

/-- A scalar opens neither a message nor a list. -/
theorem ScalarPhrase.exists_head (s : ScalarPhrase) :
    ∃ t rest, s.tokens = t :: rest ∧ ∀ m, t ≠ .mark m := by
  cases s with
  | word text => exact ⟨_, _, rfl, nofun⟩
  | literals first more => exact ⟨_, _, rfl, nofun⟩

theorem opens?_of_scalar {t : Located} (h : ∀ m, t.token ≠ .mark m) : opens? t = none := by
  unfold opens?
  split
  · next m hm => exact absurd hm (h m)
  · rfl

theorem ItemPhrase.head_ne_closeBracket (i : ItemPhrase) :
    (i.tokens ++ tail).head? ≠ some (.mark .closeBracket) := by
  cases i with
  | nested d p => cases d <;> nofun
  | scalar s => cases s <;> nofun

theorem ItemsPhrase.head_ne_closeBracket (l : ItemsPhrase) :
    (l.tokens ++ tail).head? ≠ some (.mark .closeBracket) := by
  cases l with
  | last i => exact i.head_ne_closeBracket
  | more i l =>
    rw [ItemsPhrase.tokens, List.append_assoc]
    exact i.head_ne_closeBracket

/-! ## One step of each reader -/

theorem skip_colon {colon : Bool} (h : bare ts = colonTokens colon ++ tail)
    (ht : tail.head? ≠ some (.mark .colon)) :
    ∃ ts' hle, skip .colon ts = ⟨colon, ts', hle⟩ ∧ bare ts' = tail := by
  cases colon with
  | true => exact skip_of_head h
  | false =>
    have h : bare ts = tail := h
    subst h
    exact ⟨ts, Nat.le_refl _, skip_of_head_ne ht, rfl⟩

theorem fields_closing {close : Mark} (h : bare ts = .mark close :: tail) :
    ∃ rest hr, fields last (some close) ts = .ok ⟨[], rest, hr⟩ ∧ bare rest = tail := by
  obtain ⟨t, rest, rfl, ht, hrest⟩ := exists_of_bare_eq_cons h
  refine ⟨rest, Nat.le_succ _, ?_, hrest⟩
  rw [fields.eq_def]
  simp only [Option.map_some, ht, if_true]
  rfl

theorem fields_field {n : NamePhrase} {close : Option Delimiter} {name : String}
    {r₁ r₂ : List Located} {values : List Value} {more : Message} {h₁ h₂ h₃}
    (h : bare ts = n.tokens ++ tail) (hname : fieldName last ts = .ok ⟨name, r₁, h₁⟩)
    (hvalues : fieldValues last name r₁ = .ok ⟨values, r₂, h₂⟩)
    (hmore : fields last (close.map Delimiter.closing) (skipSeparator r₂).rest =
      .ok ⟨more, rest, h₃⟩) :
    ∃ hr, fields last (close.map Delimiter.closing) ts =
      .ok ⟨values.map (name, ·) ++ more, rest, hr⟩ := by
  have hle := (skipSeparator r₂).notLonger
  refine ⟨by omega, ?_⟩
  cases ts with
  | nil => cases hname
  | cons t ts =>
    rw [fields.eq_def]
    simp only [if_neg (n.head_ne_closing close h), hname, ok_bind, hvalues, hmore, pure_eq_ok]

section

variable {name : String} {colon : Bool} {t : Located} {after : List Located} {hle}

theorem fieldValues_nested {d : Delimiter} {m : Message} {h'}
    (hskip : skip .colon ts = ⟨colon, t :: after, hle⟩) (ht : t.token = .mark d.opening)
    (hfields : fields last (some d.closing) after = .ok ⟨m, rest, h'⟩) :
    ∃ hr, fieldValues last name ts = .ok ⟨[.message m], rest, hr⟩ := by
  have hopens : opens? t = some d.closing := opens?_eq_some_iff.mpr ⟨d, ht, rfl⟩
  refine ⟨by simp only [List.length_cons] at hle; omega, ?_⟩
  rw [fieldValues.eq_def, hskip]
  simp only [hopens, hfields, ok_bind]
  rfl

theorem fieldValues_emptyList {h'} (hskip : skip .colon ts = ⟨colon, t :: after, hle⟩)
    (ht : t.token = .mark .openBracket) (hclose : skip .closeBracket after = ⟨true, rest, h'⟩) :
    ∃ hr, fieldValues last name ts = .ok ⟨[], rest, hr⟩ := by
  have hopens : opens? t = none := by simp [opens?, ht, Mark.closing?]
  refine ⟨by simp only [List.length_cons] at hle; omega, ?_⟩
  rw [fieldValues.eq_def, hskip]
  simp only [hopens, ht, if_true]
  rw [hclose]
  rfl

theorem fieldValues_list {values : List Value} {h'}
    (hskip : skip .colon ts = ⟨colon, t :: after, hle⟩) (ht : t.token = .mark .openBracket)
    (hclose : (bare after).head? ≠ some (.mark .closeBracket))
    (hitems : items last name after = .ok ⟨values, rest, h'⟩) :
    ∃ hr, fieldValues last name ts = .ok ⟨values, rest, hr⟩ := by
  have hopens : opens? t = none := by simp [opens?, ht, Mark.closing?]
  refine ⟨by simp only [List.length_cons] at hle; omega, ?_⟩
  rw [fieldValues.eq_def, hskip]
  simp only [hopens, ht, if_true]
  rw [skip_of_head_ne hclose]
  simp only [Left.value_unread, Bool.false_eq_true, if_false, Left.rest_unread, hitems, ok_bind]
  rfl

theorem fieldValues_scalar {text : String} {h'}
    (hskip : skip .colon ts = ⟨true, t :: after, hle⟩) (ht : ∀ m, t.token ≠ .mark m)
    (hscalar : scalar last (t :: after) = .ok ⟨text, rest, h'⟩) :
    ∃ hr, fieldValues last name ts = .ok ⟨[.scalar text], rest, hr⟩ := by
  refine ⟨by omega, ?_⟩
  rw [fieldValues.eq_def, hskip]
  simp only [opens?_of_scalar ht, if_neg (ht .openBracket), if_true, hscalar, ok_bind]
  rfl

theorem items_last {v : Value} {r : List Located} {h₁ h₂}
    (hv : value last ts = .ok ⟨v, r, h₁⟩) (hcomma : (bare r).head? ≠ some (.mark .comma))
    (hclose : skip .closeBracket r = ⟨true, rest, h₂⟩) :
    ∃ hr, items last name ts = .ok ⟨[v], rest, hr⟩ := by
  refine ⟨by omega, ?_⟩
  have hskip : skip .comma r = ⟨false, r, Nat.le_refl _⟩ := skip_of_head_ne hcomma
  rw [items.eq_def, hv, ok_bind]
  simp only
  rw [hskip]
  simp only [Bool.false_eq_true, if_false]
  rw [hclose]
  rfl

theorem items_more {v : Value} {values : List Value} {r r' : List Located} {h₁ h₂ h₃}
    (hv : value last ts = .ok ⟨v, r, h₁⟩) (hcomma : skip .comma r = ⟨true, r', h₂⟩)
    (hmore : items last name r' = .ok ⟨values, rest, h₃⟩) :
    ∃ hr, items last name ts = .ok ⟨v :: values, rest, hr⟩ := by
  refine ⟨by omega, ?_⟩
  rw [items.eq_def, hv, ok_bind]
  simp only
  rw [hcomma]
  simp only [if_true, hmore, ok_bind]
  rfl

theorem value_nested {d : Delimiter} {m : Message} {h'} (ht : t.token = .mark d.opening)
    (hfields : fields last (some d.closing) after = .ok ⟨m, rest, h'⟩) :
    ∃ hr, value last (t :: after) = .ok ⟨.message m, rest, hr⟩ := by
  have hopens : opens? t = some d.closing := opens?_eq_some_iff.mpr ⟨d, ht, rfl⟩
  refine ⟨Nat.lt_succ_of_le h', ?_⟩
  rw [value.eq_def]
  simp only [hopens, hfields, ok_bind]
  rfl

theorem value_scalar {text : String} {h'} (ht : ∀ m, t.token ≠ .mark m)
    (hscalar : scalar last (t :: after) = .ok ⟨text, rest, h'⟩) :
    value last (t :: after) = .ok ⟨.scalar text, rest, h'⟩ := by
  rw [value.eq_def]
  simp only [opens?_of_scalar ht, hscalar]
  rfl

end

/-! ## All readers together -/

mutual

theorem MessagePhrase.complete (p : MessagePhrase) (close : Option Delimiter) {ts : List Located}
    {tail : List Token} (h : bare ts = p.tokens ++ (closingTokens close ++ tail))
    (hend : close = none → tail = []) :
    ∃ rest hr, fields last (close.map Delimiter.closing) ts = .ok ⟨p.message, rest, hr⟩ ∧
      bare rest = tail := by
  cases p with
  | empty =>
    cases close with
    | none =>
      rw [hend rfl] at h
      obtain rfl : ts = [] := List.map_eq_nil_iff.mp h
      exact ⟨[], Nat.le_refl _, by rw [fields.eq_def]; rfl, (hend rfl).symm⟩
    | some d => exact fields_closing h
  | field n b s p =>
    simp only [MessagePhrase.tokens, List.append_assoc] at h
    -- behind this field there is another or the end, and either lets the field stop where it does
    have hafter := p.afterField (afterField_closing hend)
    obtain ⟨r₁, h₁, hname, hr₁⟩ := fieldName_complete last n h
    obtain ⟨r₂, h₂, hvalues, hr₂⟩ :=
      b.complete n.name hr₁ (s.noLiteral_tokens hafter.noLiteral)
    have hr₃ := skipSeparator_complete s hr₂ hafter.noSeparator
    obtain ⟨rest, h₃, hmore, hrest⟩ := p.complete close hr₃ hend
    obtain ⟨hr, hfields⟩ := fields_field h hname hvalues hmore
    exact ⟨rest, hr, hfields, hrest⟩

theorem BodyPhrase.complete (b : BodyPhrase) (name : String) {ts : List Located}
    {tail : List Token} (h : bare ts = b.tokens ++ tail) (ht : NoLiteral tail) :
    ∃ rest hr, fieldValues last name ts = .ok ⟨b.values, rest, hr⟩ ∧ bare rest = tail := by
  cases b with
  | nested colon d p =>
    simp only [BodyPhrase.tokens, List.append_assoc, List.cons_append] at h
    obtain ⟨ts', hle, hskip, hts'⟩ := skip_colon h (by cases d <;> nofun)
    obtain ⟨t, after, rfl, ht, hafter⟩ := exists_of_bare_eq_cons hts'
    obtain ⟨rest, h', hfields, hrest⟩ := p.complete (some d) hafter nofun
    obtain ⟨hr, hvalues⟩ := fieldValues_nested hskip ht hfields
    exact ⟨rest, hr, hvalues, hrest⟩
  | emptyList colon =>
    simp only [BodyPhrase.tokens, List.append_assoc, List.cons_append, List.nil_append] at h
    obtain ⟨ts', hle, hskip, hts'⟩ := skip_colon h nofun
    obtain ⟨t, after, rfl, ht, hafter⟩ := exists_of_bare_eq_cons hts'
    obtain ⟨rest, h', hclose, hrest⟩ := skip_of_head hafter
    obtain ⟨hr, hvalues⟩ := fieldValues_emptyList hskip ht hclose
    exact ⟨rest, hr, hvalues, hrest⟩
  | list colon l =>
    simp only [BodyPhrase.tokens, List.append_assoc, List.cons_append, List.nil_append] at h
    obtain ⟨ts', hle, hskip, hts'⟩ := skip_colon h nofun
    obtain ⟨t, after, rfl, ht, hafter⟩ := exists_of_bare_eq_cons hts'
    obtain ⟨rest, h', hitems, hrest⟩ := l.complete name hafter
    -- no item begins with a closing bracket, so the list is not taken for an empty one
    have hclose : (bare after).head? ≠ some (.mark .closeBracket) :=
      hafter ▸ l.head_ne_closeBracket
    obtain ⟨hr, hvalues⟩ := fieldValues_list hskip ht hclose hitems
    exact ⟨rest, hr, hvalues, hrest⟩
  | scalar s =>
    -- only here the colon has to be there
    obtain ⟨ts', hle, hskip, hts'⟩ := skip_of_head h
    obtain ⟨rest, h', hscalar, hrest⟩ := scalar_complete last s hts' ht
    obtain ⟨t, more, hs, hmark⟩ := s.exists_head
    rw [hs] at hts'
    obtain ⟨t', after, rfl, rfl, -⟩ := exists_of_bare_eq_cons hts'
    obtain ⟨hr, hvalues⟩ := fieldValues_scalar hskip hmark hscalar
    exact ⟨rest, hr, hvalues, hrest⟩

theorem ItemsPhrase.complete (l : ItemsPhrase) (name : String) {ts : List Located}
    {tail : List Token} (h : bare ts = l.tokens ++ .mark .closeBracket :: tail) :
    ∃ rest hr, items last name ts = .ok ⟨l.values, rest, hr⟩ ∧ bare rest = tail := by
  cases l with
  | last i =>
    obtain ⟨r, h₁, hv, hr₁⟩ := i.complete h nofun
    obtain ⟨rest, h₂, hclose, hrest⟩ := skip_of_head hr₁
    have hcomma : (bare r).head? ≠ some (.mark .comma) := hr₁ ▸ nofun
    obtain ⟨hr, hitems⟩ := items_last hv hcomma hclose
    exact ⟨rest, hr, hitems, hrest⟩
  | more i l =>
    simp only [ItemsPhrase.tokens, List.append_assoc, List.cons_append] at h
    obtain ⟨r, h₁, hv, hr₁⟩ := i.complete h nofun
    obtain ⟨r', h₂, hcomma, hr₂⟩ := skip_of_head hr₁
    obtain ⟨rest, h₃, hmore, hrest⟩ := l.complete name hr₂
    obtain ⟨hr, hitems⟩ := items_more hv hcomma hmore
    exact ⟨rest, hr, hitems, hrest⟩

theorem ItemPhrase.complete (i : ItemPhrase) {ts : List Located} {tail : List Token}
    (h : bare ts = i.tokens ++ tail) (ht : NoLiteral tail) :
    ∃ rest hr, value last ts = .ok ⟨i.value, rest, hr⟩ ∧ bare rest = tail := by
  cases i with
  | nested d p =>
    simp only [ItemPhrase.tokens, List.append_assoc, List.cons_append] at h
    obtain ⟨t, after, rfl, ht, hafter⟩ := exists_of_bare_eq_cons h
    obtain ⟨rest, h', hfields, hrest⟩ := p.complete (some d) hafter nofun
    obtain ⟨hr, hvalue⟩ := value_nested ht hfields
    exact ⟨rest, hr, hvalue, hrest⟩
  | scalar s =>
    obtain ⟨rest, h', hscalar, hrest⟩ := scalar_complete last s h ht
    obtain ⟨t, more, hs, hmark⟩ := s.exists_head
    rw [ItemPhrase.tokens, hs] at h
    obtain ⟨t', after, rfl, rfl, -⟩ := exists_of_bare_eq_cons h
    exact ⟨rest, h', value_scalar hmark hscalar, hrest⟩

end

end CorpusAnnotator.TextFormat
