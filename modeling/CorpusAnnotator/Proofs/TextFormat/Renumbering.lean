import CorpusAnnotator.Proofs.TextFormat.Parts
import CorpusAnnotator.Proofs.Results

/-! Tokens on other lines. A reader looks at a line only to name it in an error, so that tokens with
other lines give the same message, or the same error with another line in it. Every error names the
line of one of the tokens. -/
namespace CorpusAnnotator.TextFormat

open Results
open Text (Taken Left)

/-! ## Renumbering -/

/-- The token with line `g n` for line `n`. -/
def Located.renumber (g : Nat → Nat) (t : Located) : Located :=
  { t with line := g t.line }

def Error.renumber (g : Nat → Nat) (e : Error) : Error :=
  { e with line := g e.line }

variable {g : Nat → Nat} {α β γ δ : Type} {ts us : List Located}

/-- Results that `R` holds of, or errors that are the same but for the line. -/
def Alike (g : Nat → Nat) (R : α → β → Prop) : Except Error α → Except Error β → Prop
  | .ok a, .ok b => R a b
  | .error e, .error e' => e' = e.renumber g
  | _, _ => False

/-- The same value, with the same tokens left but for their lines. -/
structure SameTaken (g : Nat → Nat) (t : Taken α ts) (u : Taken α us) : Prop where
  value : u.value = t.value
  rest : u.rest = t.rest.map (Located.renumber g)

structure SameLeft (g : Nat → Nat) (t : Left α ts) (u : Left α us) : Prop where
  value : u.value = t.value
  rest : u.rest = t.rest.map (Located.renumber g)

theorem SameTaken.exists_eq {t : Taken α ts} {u : Taken α us} (h : SameTaken g t u) :
    ∃ hr, u = ⟨t.value, t.rest.map (Located.renumber g), hr⟩ := by
  obtain ⟨value, rest, hr⟩ := u
  obtain ⟨rfl, rfl⟩ := h
  exact ⟨hr, rfl⟩

theorem SameLeft.exists_eq {t : Left α ts} {u : Left α us} (h : SameLeft g t u) :
    ∃ hr, u = ⟨t.value, t.rest.map (Located.renumber g), hr⟩ := by
  obtain ⟨value, rest, hr⟩ := u
  obtain ⟨rfl, rfl⟩ := h
  exact ⟨hr, rfl⟩

theorem Alike.bind {R : α → β → Prop} {S : γ → δ → Prop} {r : Except Error α}
    {r' : Except Error β} {f : α → Except Error γ} {f' : β → Except Error δ}
    (h : Alike g R r r') (hf : ∀ a b, R a b → Alike g S (f a) (f' b)) :
    Alike g S (r >>= f) (r' >>= f') := by
  cases r with
  | ok a =>
    cases r' with
    | ok b => exact hf a b h
    | error e => exact h.elim
  | error e =>
    cases r' with
    | ok b => exact h.elim
    | error e' => exact h

theorem Alike.map {R : α → β → Prop} {S : γ → δ → Prop} {r : Except Error α}
    {r' : Except Error β} {f : α → γ} {f' : β → δ} (h : Alike g R r r')
    (hf : ∀ a b, R a b → S (f a) (f' b)) : Alike g S (r.map f) (r'.map f') :=
  h.bind hf

/-! ## Parts without nesting -/

theorem lineOf_renumber (g : Nat → Nat) (last : Nat) (ts : List Located) :
    lineOf (g last) (ts.map (Located.renumber g)) = g (lineOf last ts) := by
  cases ts <;> rfl

theorem opens?_renumber (g : Nat → Nat) (t : Located) : opens? (t.renumber g) = opens? t := rfl

theorem skip_renumber (g : Nat → Nat) (m : Mark) (ts : List Located) :
    SameLeft g (skip m ts) (skip m (ts.map (Located.renumber g))) := by
  cases ts with
  | nil => exact ⟨rfl, rfl⟩
  | cons t rest =>
    show SameLeft g (skip m (t :: rest))
      (skip m (t.renumber g :: rest.map (Located.renumber g)))
    by_cases ht : t.token = .mark m
    · have hskip : skip m (t :: rest) = (Taken.one true).toLeft := if_pos ht
      have hskip' : skip m (t.renumber g :: rest.map (Located.renumber g)) =
          (Taken.one true).toLeft := if_pos ht
      rw [hskip, hskip']
      exact ⟨rfl, rfl⟩
    · have hskip : skip m (t :: rest) = .unread false := if_neg ht
      have hskip' : skip m (t.renumber g :: rest.map (Located.renumber g)) = .unread false :=
        if_neg ht
      rw [hskip, hskip']
      exact ⟨rfl, rfl⟩

theorem skipSeparator_renumber (g : Nat → Nat) (ts : List Located) :
    SameLeft g (skipSeparator ts) (skipSeparator (ts.map (Located.renumber g))) := by
  unfold skipSeparator
  have hskip := skip_renumber g .comma ts
  generalize skip .comma ts = t at hskip ⊢
  generalize skip .comma (ts.map (Located.renumber g)) = u at hskip ⊢
  obtain ⟨comma, rest, hr⟩ := t
  obtain ⟨hr', rfl⟩ := hskip.exists_eq
  cases comma with
  | true => exact ⟨rfl, rfl⟩
  | false => exact ⟨rfl, (skip_renumber g .semicolon rest).rest⟩

theorem literals_renumber (g : Nat → Nat) (ts : List Located) :
    SameLeft g (literals ts) (literals (ts.map (Located.renumber g))) := by
  induction ts with
  | nil => exact ⟨rfl, rfl⟩
  | cons t rest ih =>
    obtain ⟨token, line⟩ := t
    cases token with
    | literal text => exact ⟨congrArg (text ++ ·) ih.value, ih.rest⟩
    | word text => exact ⟨rfl, rfl⟩
    | mark m => exact ⟨rfl, rfl⟩

theorem fieldName_renumber (g : Nat → Nat) (last : Nat) (ts : List Located) :
    Alike g (SameTaken g) (fieldName last ts)
      (fieldName (g last) (ts.map (Located.renumber g))) := by
  cases ts with
  | nil => rfl
  | cons t rest =>
    obtain ⟨token, line⟩ := t
    cases token with
    | word name => exact ⟨rfl, rfl⟩
    | literal text => rfl
    | mark m =>
      cases m with
      | openBracket =>
        match rest with
        | [] => rfl
        | [u] => rfl
        | u :: v :: after =>
          obtain ⟨second, _⟩ := u
          obtain ⟨third, _⟩ := v
          cases second with
          | word name =>
            cases third with
            | mark m => cases m <;> first | rfl | exact ⟨rfl, rfl⟩
            | word text => rfl
            | literal text => rfl
          | literal text => rfl
          | mark m => rfl
      | _ => rfl

theorem scalar_renumber (g : Nat → Nat) (last : Nat) (ts : List Located) :
    Alike g (SameTaken g) (scalar last ts) (scalar (g last) (ts.map (Located.renumber g))) := by
  cases ts with
  | nil => rfl
  | cons t rest =>
    obtain ⟨token, line⟩ := t
    cases token with
    | word text => exact ⟨rfl, rfl⟩
    | literal text =>
      obtain ⟨hvalue, hrest⟩ := literals_renumber g rest
      exact ⟨congrArg (text ++ ·) hvalue, hrest⟩
    | mark m => rfl

/-! ## All readers together -/

mutual

theorem fields_renumber (g : Nat → Nat) (last : Nat) (close : Option Mark) (ts : List Located) :
    Alike g (SameLeft g) (fields last close ts)
      (fields (g last) close (ts.map (Located.renumber g))) := by
  cases ts with
  | nil =>
    rw [List.map_nil, fields.eq_def, fields.eq_def]
    cases close with
    | none => exact ⟨rfl, rfl⟩
    | some m => rfl
  | cons t rest =>
    rw [List.map_cons, fields, fields]
    by_cases hclose : close.map Token.mark = some t.token
    · have hclose' : close.map Token.mark = some (t.renumber g).token := hclose
      rw [if_pos hclose, if_pos hclose']
      exact ⟨rfl, rfl⟩
    · have hclose' : ¬ close.map Token.mark = some (t.renumber g).token := hclose
      rw [if_neg hclose, if_neg hclose']
      refine (fieldName_renumber g last (t :: rest)).bind ?_
      rintro ⟨name, r₁, h₁⟩ _ hsame
      obtain ⟨h₁', rfl⟩ := hsame.exists_eq
      refine (fieldValues_renumber g last name r₁).bind ?_
      rintro ⟨values, r₂, h₂⟩ _ hsame
      obtain ⟨h₂', rfl⟩ := hsame.exists_eq
      have hskip := skipSeparator_renumber g r₂
      simp only
      generalize skipSeparator r₂ = u at hskip ⊢
      generalize skipSeparator (r₂.map (Located.renumber g)) = u' at hskip ⊢
      obtain ⟨_, r₃, h₃⟩ := u
      obtain ⟨h₃', rfl⟩ := hskip.exists_eq
      refine (fields_renumber g last close r₃).bind ?_
      rintro ⟨more, r₄, h₄⟩ _ hsame
      obtain ⟨h₄', rfl⟩ := hsame.exists_eq
      exact ⟨rfl, rfl⟩
termination_by (ts.length, 0)
decreasing_by
  · exact Prod.Lex.left _ _ h₁
  · exact Prod.Lex.left _ _ (Nat.lt_of_le_of_lt h₃ (Nat.lt_trans h₂ h₁))

theorem fieldValues_renumber (g : Nat → Nat) (last : Nat) (name : String) (ts : List Located) :
    Alike g (SameTaken g) (fieldValues last name ts)
      (fieldValues (g last) name (ts.map (Located.renumber g))) := by
  rw [fieldValues, fieldValues]
  have hskip := skip_renumber g .colon ts
  generalize skip .colon ts = u at hskip ⊢
  generalize skip .colon (ts.map (Located.renumber g)) = u' at hskip ⊢
  obtain ⟨colon, rest, h⟩ := u
  obtain ⟨colon', rest', h'⟩ := u'
  have hcolon : colon' = colon := hskip.value
  subst hcolon
  cases rest with
  | nil =>
    have hrest : rest' = [] := hskip.rest
    subst hrest
    cases colon' <;> rfl
  | cons t after =>
    have hrest : rest' = t.renumber g :: after.map (Located.renumber g) := hskip.rest
    subst hrest
    simp only [opens?_renumber]
    cases hopens : opens? t with
    | some close =>
      refine (fields_renumber g last (some close) after).bind ?_
      rintro ⟨m, r, hm⟩ _ hsame
      obtain ⟨hm', rfl⟩ := hsame.exists_eq
      exact ⟨rfl, rfl⟩
    | none =>
      simp only
      by_cases ht : t.token = .mark .openBracket
      · have ht' : (t.renumber g).token = .mark .openBracket := ht
        rw [if_pos ht, if_pos ht']
        have hskip := skip_renumber g .closeBracket after
        generalize skip .closeBracket after = u at hskip ⊢
        generalize skip .closeBracket (after.map (Located.renumber g)) = u' at hskip ⊢
        obtain ⟨closed, r, hr⟩ := u
        obtain ⟨hr', rfl⟩ := hskip.exists_eq
        cases closed with
        | true => exact ⟨rfl, rfl⟩
        | false =>
          refine (items_renumber g last name r).bind ?_
          rintro ⟨values, r', hvalues⟩ _ hsame
          obtain ⟨hvalues', rfl⟩ := hsame.exists_eq
          exact ⟨rfl, rfl⟩
      · have ht' : ¬ (t.renumber g).token = .mark .openBracket := ht
        rw [if_neg ht, if_neg ht']
        cases colon' with
        | true =>
          refine (scalar_renumber g last (t :: after)).bind ?_
          rintro ⟨text, r, htext⟩ _ hsame
          obtain ⟨htext', rfl⟩ := hsame.exists_eq
          exact ⟨rfl, rfl⟩
        | false => rfl
termination_by (ts.length, 2)
decreasing_by
  · exact Prod.Lex.left _ _ (Nat.lt_of_le_of_lt hr h)
  · exact Prod.Lex.left _ _ h

theorem items_renumber (g : Nat → Nat) (last : Nat) (name : String) (ts : List Located) :
    Alike g (SameTaken g) (items last name ts)
      (items (g last) name (ts.map (Located.renumber g))) := by
  rw [items, items]
  refine (value_renumber g last ts).bind ?_
  rintro ⟨v, r₁, h₁⟩ _ hsame
  obtain ⟨h₁', rfl⟩ := hsame.exists_eq
  have hskip := skip_renumber g .comma r₁
  simp only
  generalize skip .comma r₁ = u at hskip ⊢
  generalize skip .comma (r₁.map (Located.renumber g)) = u' at hskip ⊢
  obtain ⟨comma, r₂, h₂⟩ := u
  obtain ⟨h₂', rfl⟩ := hskip.exists_eq
  cases comma with
  | true =>
    refine (items_renumber g last name r₂).bind ?_
    rintro ⟨more, r₃, h₃⟩ _ hsame
    obtain ⟨h₃', rfl⟩ := hsame.exists_eq
    exact ⟨rfl, rfl⟩
  | false =>
    have hskip := skip_renumber g .closeBracket r₂
    simp only [Bool.false_eq_true, if_false, lineOf_renumber]
    generalize skip .closeBracket r₂ = u at hskip ⊢
    generalize skip .closeBracket (r₂.map (Located.renumber g)) = u' at hskip ⊢
    obtain ⟨closed, r₃, h₃⟩ := u
    obtain ⟨h₃', rfl⟩ := hskip.exists_eq
    cases closed with
    | true => exact ⟨rfl, rfl⟩
    | false => rfl
termination_by (ts.length, 1)
decreasing_by
  · exact Prod.Lex.right _ (by decide)
  · exact Prod.Lex.left _ _ (by omega)

theorem value_renumber (g : Nat → Nat) (last : Nat) (ts : List Located) :
    Alike g (SameTaken g) (value last ts)
      (value (g last) (ts.map (Located.renumber g))) := by
  cases ts with
  | nil =>
    rw [List.map_nil, value.eq_def, value.eq_def]
    rfl
  | cons t rest =>
    rw [List.map_cons, value, value, opens?_renumber]
    cases hopens : opens? t with
    | some close =>
      refine (fields_renumber g last (some close) rest).bind ?_
      rintro ⟨m, r, hm⟩ _ hsame
      obtain ⟨hm', rfl⟩ := hsame.exists_eq
      exact ⟨rfl, rfl⟩
    | none =>
      have hscalar := scalar_renumber g last (t :: rest)
      exact hscalar.map fun _ _ hsame => ⟨congrArg Value.scalar hsame.value, hsame.rest⟩
termination_by (ts.length, 0)
decreasing_by
  all_goals exact Prod.Lex.left _ _ (Nat.lt_succ_self _)

end

/-! ## Whole messages -/

theorem lastLine_renumber (g : Nat → Nat) (h : ts ≠ []) :
    lastLine (ts.map (Located.renumber g)) = g (lastLine ts) := by
  rw [lastLine, lastLine, List.getLast?_map, List.getLast?_eq_some_getLast h]
  rfl

/-- Tokens with other lines are read as before; only an error names another line. -/
theorem Message.ofTokens_renumber (g : Nat → Nat) (ts : List Located) :
    Message.ofTokens (ts.map (Located.renumber g)) =
      (Message.ofTokens ts).mapError (Error.renumber g) := by
  by_cases hne : ts = []
  · -- without tokens there is no last line, but neither is there an error to name it
    subst hne
    rw [List.map_nil, Message.ofTokens, fields.eq_def]
    rfl
  have hsame := fields_renumber g (lastLine ts) none ts
  rw [← lastLine_renumber g hne] at hsame
  unfold Message.ofTokens
  generalize fields (lastLine ts) none ts = r at hsame ⊢
  generalize fields (lastLine (ts.map (Located.renumber g))) none _ = r' at hsame ⊢
  cases r with
  | ok taken =>
    cases r' with
    | ok taken' => exact congrArg Except.ok hsame.value
    | error e => exact hsame.elim
  | error e =>
    cases r' with
    | ok taken => exact hsame.elim
    | error e' => exact congrArg Except.error hsame

/-- An error names the line of one of the tokens. -/
theorem exists_line_eq_of_ofTokens {e : Error} (h : Message.ofTokens ts = .error e) :
    ∃ t ∈ ts, t.line = e.line := by
  apply Decidable.byContradiction
  intro hne
  -- a renumbering that moves the line of the error alone leaves all tokens as they are
  let g : Nat → Nat := fun n => if n = e.line then n + 1 else n
  have hlines : ∀ t ∈ ts, t.renumber g = id t := by
    intro t ht
    have hline : g t.line = t.line := if_neg fun heq => hne ⟨t, ht, heq⟩
    rw [Located.renumber, hline]
    rfl
  have hts : ts.map (Located.renumber g) = ts :=
    (List.map_congr_left hlines).trans (List.map_id ts)
  have hread := Message.ofTokens_renumber g ts
  rw [hts, h] at hread
  have hline : e.line = g e.line := congrArg Error.line (Except.error.inj hread)
  rw [show g e.line = e.line + 1 from if_pos rfl] at hline
  omega

end CorpusAnnotator.TextFormat
