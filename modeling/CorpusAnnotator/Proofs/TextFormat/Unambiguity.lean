import CorpusAnnotator.Proofs.TextFormat.Completeness

/-! A phrase can be told from its tokens, also when others stand behind them: the grammar is not
ambiguous. -/
namespace CorpusAnnotator.TextFormat

variable {tail tail' : List Token}

/-! ## Parts without nesting -/

theorem NamePhrase.unique {n n' : NamePhrase} (h : n.tokens ++ tail = n'.tokens ++ tail') :
    n = n' ∧ tail = tail' := by
  cases n <;> cases n' <;> cases h <;> exact ⟨rfl, rfl⟩

theorem colonTokens_unique {colon colon' : Bool}
    (h : colonTokens colon ++ tail = colonTokens colon' ++ tail')
    (ht : tail.head? ≠ some (.mark .colon)) (ht' : tail'.head? ≠ some (.mark .colon)) :
    colon = colon' ∧ tail = tail' := by
  cases colon <;> cases colon'
  · exact ⟨rfl, h⟩
  · have h : tail = .mark .colon :: tail' := h
    exact absurd (congrArg List.head? h) ht
  · have h : .mark .colon :: tail = tail' := h
    exact absurd (congrArg List.head? h.symm) ht'
  · exact ⟨rfl, (List.cons.inj h).2⟩

theorem Separator.unique {s s' : Separator} (h : s.tokens ++ tail = s'.tokens ++ tail')
    (ht : NoSeparator tail) (ht' : NoSeparator tail') : s = s' ∧ tail = tail' := by
  obtain ⟨hcomma, hsemicolon⟩ := ht
  obtain ⟨hcomma', hsemicolon'⟩ := ht'
  cases s <;> cases s' <;> simp only [Separator.tokens, List.nil_append, List.cons_append] at h
  case nothing.nothing => exact ⟨rfl, h⟩
  case comma.comma => exact ⟨rfl, (List.cons.inj h).2⟩
  case semicolon.semicolon => exact ⟨rfl, (List.cons.inj h).2⟩
  case nothing.comma => exact absurd (congrArg List.head? h) hcomma
  case nothing.semicolon => exact absurd (congrArg List.head? h) hsemicolon
  case comma.nothing => exact absurd (congrArg List.head? h.symm) hcomma'
  case semicolon.nothing => exact absurd (congrArg List.head? h.symm) hsemicolon'
  case comma.semicolon => cases h
  case semicolon.comma => cases h

theorem map_literal_unique {texts texts' : List String}
    (h : texts.map Token.literal ++ tail = texts'.map Token.literal ++ tail')
    (ht : NoLiteral tail) (ht' : NoLiteral tail') : texts = texts' ∧ tail = tail' := by
  induction texts generalizing texts' with
  | nil =>
    cases texts' with
    | nil => exact ⟨rfl, h⟩
    | cons text texts' => exact absurd (congrArg List.head? h) (ht text)
  | cons text texts ih =>
    cases texts' with
    | nil => exact absurd (congrArg List.head? h.symm) (ht' text)
    | cons text' texts' =>
      obtain ⟨htext, hmore⟩ := List.cons.inj h
      obtain ⟨rfl, rfl⟩ := ih hmore
      cases htext
      exact ⟨rfl, rfl⟩

theorem ScalarPhrase.unique {s s' : ScalarPhrase} (h : s.tokens ++ tail = s'.tokens ++ tail')
    (ht : NoLiteral tail) (ht' : NoLiteral tail') : s = s' ∧ tail = tail' := by
  cases s with
  | word text =>
    cases s' with
    | word text' =>
      cases h
      exact ⟨rfl, rfl⟩
    | literals first more => cases h
  | literals first more =>
    cases s' with
    | word text => cases h
    | literals first' more' =>
      obtain ⟨hfirst, hmore⟩ := List.cons.inj h
      obtain ⟨rfl, rfl⟩ := map_literal_unique hmore ht ht'
      cases hfirst
      exact ⟨rfl, rfl⟩

theorem Delimiter.opening_injective {d d' : Delimiter}
    (h : Token.mark d.opening = .mark d'.opening) : d = d' := by
  cases d <;> cases d' <;> first | rfl | cases h

/-- Where a message ends, no further field begins. -/
theorem closing_ne_name {close : Option Delimiter} (n : NamePhrase)
    (hend : close = none → tail = []) : closingTokens close ++ tail ≠ n.tokens ++ tail' := by
  cases close with
  | none =>
    rw [hend rfl]
    cases n <;> nofun
  | some d => cases d <;> cases n <;> nofun

theorem closingTokens_unique {close : Option Delimiter}
    (h : closingTokens close ++ tail = closingTokens close ++ tail') : tail = tail' :=
  List.append_cancel_left h

/-! ## Bodies without their colon -/

def BodyPhrase.colon : BodyPhrase → Bool
  | .nested colon _ _ | .emptyList colon | .list colon _ => colon
  | .scalar _ => true

/-- The tokens behind the colon. -/
def BodyPhrase.core : BodyPhrase → List Token
  | .nested _ d p => .mark d.opening :: (p.tokens ++ [.mark d.closing])
  | .emptyList _ => [.mark .openBracket, .mark .closeBracket]
  | .list _ l => .mark .openBracket :: (l.tokens ++ [.mark .closeBracket])
  | .scalar s => s.tokens

theorem BodyPhrase.tokens_eq (b : BodyPhrase) : b.tokens = colonTokens b.colon ++ b.core := by
  cases b <;> rw [BodyPhrase.tokens] <;> rfl

theorem BodyPhrase.head_core_ne_colon (b : BodyPhrase) :
    (b.core ++ tail).head? ≠ some (.mark .colon) := by
  cases b with
  | nested colon d p => cases d <;> nofun
  | emptyList colon => nofun
  | list colon l => nofun
  | scalar s => cases s <;> nofun

/-! ## Messages -/

mutual

theorem MessagePhrase.unique (p p' : MessagePhrase) (close : Option Delimiter)
    {tail tail' : List Token}
    (h : p.tokens ++ (closingTokens close ++ tail) = p'.tokens ++ (closingTokens close ++ tail'))
    (hend : close = none → tail = []) (hend' : close = none → tail' = []) :
    p = p' ∧ tail = tail' := by
  cases p with
  | empty =>
    cases p' with
    | empty => exact ⟨rfl, closingTokens_unique h⟩
    | field n' b' s' p' =>
      simp only [MessagePhrase.tokens, List.append_assoc] at h
      exact absurd h (closing_ne_name n' hend)
  | field n b s p =>
    cases p' with
    | empty =>
      simp only [MessagePhrase.tokens, List.append_assoc] at h
      exact absurd h.symm (closing_ne_name n hend')
    | field n' b' s' p' =>
      simp only [MessagePhrase.tokens, List.append_assoc] at h
      have hafter := p.afterField (afterField_closing hend)
      have hafter' := p'.afterField (afterField_closing hend')
      -- part by part from the left, each with what follows from the parts to its right
      obtain ⟨rfl, hbody⟩ := NamePhrase.unique h
      obtain ⟨rfl, hseparator⟩ := b.unique b' hbody (s.noLiteral_tokens hafter.noLiteral)
        (s'.noLiteral_tokens hafter'.noLiteral)
      obtain ⟨rfl, hrest⟩ := Separator.unique hseparator hafter.noSeparator hafter'.noSeparator
      obtain ⟨rfl, rfl⟩ := p.unique p' close hrest hend hend'
      exact ⟨rfl, rfl⟩

theorem BodyPhrase.unique (b b' : BodyPhrase) {tail tail' : List Token}
    (h : b.tokens ++ tail = b'.tokens ++ tail') (ht : NoLiteral tail) (ht' : NoLiteral tail') :
    b = b' ∧ tail = tail' := by
  rw [b.tokens_eq, b'.tokens_eq, List.append_assoc, List.append_assoc] at h
  obtain ⟨hcolon, hcore⟩ := colonTokens_unique h b.head_core_ne_colon b'.head_core_ne_colon
  clear h
  -- bodies of different kinds differ in the first token behind the colon, but for the two kinds of
  -- list, which differ in the second
  cases b with
  | nested colon d p =>
    cases b' with
    | nested colon' d' p' =>
      simp only [BodyPhrase.core, List.cons_append, List.append_assoc] at hcore
      obtain ⟨hopen, hfields⟩ := List.cons.inj hcore
      obtain rfl := Delimiter.opening_injective hopen
      obtain ⟨rfl, rfl⟩ := p.unique p' (some d) hfields nofun nofun
      cases hcolon
      exact ⟨rfl, rfl⟩
    | emptyList colon' => cases d <;> cases hcore
    | list colon' l' => cases d <;> cases hcore
    | scalar s' => cases d <;> cases s' <;> cases hcore
  | emptyList colon =>
    cases b' with
    | nested colon' d' p' => cases d' <;> cases hcore
    | emptyList colon' =>
      cases hcolon
      cases hcore
      exact ⟨rfl, rfl⟩
    | list colon' l' =>
      simp only [BodyPhrase.core, List.cons_append, List.append_assoc] at hcore
      exact absurd (congrArg List.head? (List.cons.inj hcore).2.symm) l'.head_ne_closeBracket
    | scalar s' => cases s' <;> cases hcore
  | list colon l =>
    cases b' with
    | nested colon' d' p' => cases d' <;> cases hcore
    | emptyList colon' =>
      simp only [BodyPhrase.core, List.cons_append, List.append_assoc] at hcore
      exact absurd (congrArg List.head? (List.cons.inj hcore).2) l.head_ne_closeBracket
    | list colon' l' =>
      simp only [BodyPhrase.core, List.cons_append, List.append_assoc, List.nil_append] at hcore
      obtain ⟨rfl, rfl⟩ := l.unique l' (List.cons.inj hcore).2
      cases hcolon
      exact ⟨rfl, rfl⟩
    | scalar s' => cases s' <;> cases hcore
  | scalar s =>
    cases b' with
    | nested colon' d' p' => cases d' <;> cases s <;> cases hcore
    | emptyList colon' => cases s <;> cases hcore
    | list colon' l' => cases s <;> cases hcore
    | scalar s' =>
      obtain ⟨rfl, rfl⟩ := ScalarPhrase.unique hcore ht ht'
      exact ⟨rfl, rfl⟩

theorem ItemsPhrase.unique (l l' : ItemsPhrase) {tail tail' : List Token}
    (h : l.tokens ++ .mark .closeBracket :: tail = l'.tokens ++ .mark .closeBracket :: tail') :
    l = l' ∧ tail = tail' := by
  cases l with
  | last i =>
    cases l' with
    | last i' =>
      obtain ⟨rfl, hclose⟩ := i.unique i' h nofun nofun
      exact ⟨rfl, (List.cons.inj hclose).2⟩
    | more i' l' =>
      -- behind the same item there would be a closing bracket and a comma
      simp only [ItemsPhrase.tokens, List.append_assoc] at h
      obtain ⟨-, hrest⟩ := i.unique i' h nofun nofun
      cases hrest
  | more i l =>
    cases l' with
    | last i' =>
      simp only [ItemsPhrase.tokens, List.append_assoc] at h
      obtain ⟨-, hrest⟩ := i.unique i' h nofun nofun
      cases hrest
    | more i' l' =>
      simp only [ItemsPhrase.tokens, List.append_assoc] at h
      obtain ⟨rfl, hrest⟩ := i.unique i' h nofun nofun
      obtain ⟨rfl, rfl⟩ := l.unique l' (List.cons.inj hrest).2
      exact ⟨rfl, rfl⟩

theorem ItemPhrase.unique (i i' : ItemPhrase) {tail tail' : List Token}
    (h : i.tokens ++ tail = i'.tokens ++ tail') (ht : NoLiteral tail) (ht' : NoLiteral tail') :
    i = i' ∧ tail = tail' := by
  cases i with
  | nested d p =>
    cases i' with
    | nested d' p' =>
      simp only [ItemPhrase.tokens, List.cons_append, List.append_assoc] at h
      obtain ⟨hopen, hfields⟩ := List.cons.inj h
      obtain rfl := Delimiter.opening_injective hopen
      obtain ⟨rfl, rfl⟩ := p.unique p' (some d) hfields nofun nofun
      exact ⟨rfl, rfl⟩
    | scalar s' =>
      simp only [ItemPhrase.tokens] at h
      cases d <;> cases s' <;> cases h
  | scalar s =>
    cases i' with
    | nested d' p' =>
      simp only [ItemPhrase.tokens] at h
      cases d' <;> cases s <;> cases h
    | scalar s' =>
      simp only [ItemPhrase.tokens] at h
      obtain ⟨rfl, rfl⟩ := ScalarPhrase.unique h ht ht'
      exact ⟨rfl, rfl⟩

end

/-- A whole list of tokens has at most one derivation. -/
theorem MessagePhrase.eq_of_tokens_eq {p p' : MessagePhrase} (h : p.tokens = p'.tokens) :
    p = p' := by
  have h : p.tokens ++ (closingTokens none ++ []) = p'.tokens ++ (closingTokens none ++ []) := by
    rw [h]
  exact (p.unique p' none h (fun _ => rfl) (fun _ => rfl)).1

end CorpusAnnotator.TextFormat
