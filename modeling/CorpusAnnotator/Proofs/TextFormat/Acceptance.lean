import CorpusAnnotator.Proofs.TextFormat.Rejection
import CorpusAnnotator.Proofs.TextFormat.Soundness
import CorpusAnnotator.Proofs.TextFormat.Unambiguity

/-! Messages are read from the tokens that a phrase derives, and from no others. -/
namespace CorpusAnnotator.TextFormat

open Results
open Text (Left)

variable {ts : List Located} {m : Message}

/-- The tokens of a phrase spell its message, on whatever lines they stand. -/
theorem MessagePhrase.ofTokens_eq (p : MessagePhrase) (h : bare ts = p.tokens) :
    Message.ofTokens ts = .ok p.message := by
  have h : bare ts = p.tokens ++ (closingTokens none ++ []) := by
    rw [h]
    exact (List.append_nil _).symm
  obtain ⟨rest, hr, hfields, -⟩ := p.complete none h (fun _ => rfl)
  exact map_eq_ok_iff.mpr ⟨_, hfields, rfl⟩

/-- The readers of whole messages stop at the end of the tokens. -/
theorem rest_eq_nil_of_fields {last : Nat} {taken : Left Message ts}
    (h : fields last none ts = .ok taken) : taken.rest = [] := by
  obtain ⟨-, -, -, hend⟩ := fields_sound h
  exact hend rfl

theorem exists_phrase_of_ofTokens (h : Message.ofTokens ts = .ok m) :
    ∃ p : MessagePhrase, p.tokens = bare ts ∧ p.message = m := by
  obtain ⟨taken, hfields, rfl⟩ := map_eq_ok_iff.mp h
  obtain ⟨p, hp, hts, -⟩ := fields_sound hfields
  rw [rest_eq_nil_of_fields hfields] at hts
  refine ⟨p, ?_, hp⟩
  rw [hts]
  exact (List.append_nil _).symm

/-- Tokens that no phrase derives are refused. -/
theorem exists_error_of_ofTokens (h : ∀ p : MessagePhrase, p.tokens ≠ bare ts) :
    ∃ e, Message.ofTokens ts = .error e := by
  cases hread : Message.ofTokens ts with
  | error e => exact ⟨e, rfl⟩
  | ok m =>
    obtain ⟨p, hp, -⟩ := exists_phrase_of_ofTokens hread
    exact absurd hp (h p)

/-- Tokens are accepted exactly where a phrase derives all of them, there is only one such phrase,
and what has been read is the message that it denotes. So there is no way past a bracket that is not
matched by its own kind, a second separator, or a separator at the end of a list. -/
theorem Message.ofTokens_accepts_grammar (ts : List Located) :
    (∀ m, Message.ofTokens ts = .ok m ↔
      ∃ p : MessagePhrase, p.tokens = bare ts ∧ p.message = m) ∧
    (∀ p p' : MessagePhrase, p.tokens = bare ts → p'.tokens = bare ts → p = p') ∧
    (∀ last taken, fields last none ts = .ok taken → taken.rest = []) ∧
    (¬ Balanced (bare ts) → ∃ e, Message.ofTokens ts = .error e) ∧
    (∀ s t : Token, s.isSeparator = true → t.endsItem = true → [s, t] <:+: bare ts →
      ∃ e, Message.ofTokens ts = .error e) := by
  refine ⟨fun m => ⟨exists_phrase_of_ofTokens, ?_⟩, ?_, ?_, ?_, ?_⟩
  · rintro ⟨p, hp, rfl⟩
    exact p.ofTokens_eq hp.symm
  · intro p p' hp hp'
    exact MessagePhrase.eq_of_tokens_eq (hp.trans hp'.symm)
  · intro last taken h
    exact rest_eq_nil_of_fields h
  · intro h
    apply exists_error_of_ofTokens
    intro p hp
    exact h (hp ▸ p.balanced)
  · intro s t hs ht hst
    apply exists_error_of_ofTokens
    intro p hp
    exact p.separated_tokens.not_isInfix hs ht (hp ▸ hst)

/-- A nested message whose field is an extension with two values is read. Closing the message by
another mark, ending the list with a comma, and a second separator behind it are each refused. -/
theorem Message.ofTokens_accepts_grammar_nested :
    let front : List Token := [.word "a", .mark .openAngle, .mark .openBracket, .word "x.y",
      .mark .closeBracket, .mark .openBracket, .literal "p", .literal "q"]
    let read (ts : List Token) := Message.ofTokens (ts.map (⟨·, 1⟩))
    let rejected (ts : List Token) := ∃ e, read ts = .error e
    read (front ++ [Token.mark .comma, .word "z", .mark .closeBracket, .mark .semicolon,
        .mark .closeAngle]) =
      .ok [("a", .message [("[x.y]", .scalar "pq"), ("[x.y]", .scalar "z")])] ∧
    rejected (front ++ [Token.mark .closeBracket, .mark .closeBrace]) ∧
    rejected (front ++ [Token.mark .comma, .mark .closeBracket, .mark .closeAngle]) ∧
    rejected (front ++ [Token.mark .closeBracket, .mark .comma, .mark .semicolon,
        .mark .closeAngle]) := by
  refine ⟨?_, ?_, ?_, ?_⟩
  · exact ((Message.ofTokens_accepts_grammar _).1 _).mpr
      ⟨.field (.word "a") (.nested false .angles (.field (.extension "x.y")
        (.list false (.more (.scalar (.literals "p" ["q"])) (.last (.scalar (.word "z")))))
        .semicolon .empty)) .nothing .empty, rfl, rfl⟩
  · exact (Message.ofTokens_accepts_grammar _).2.2.2.1 (by decide)
  · exact (Message.ofTokens_accepts_grammar _).2.2.2.2 (.mark .comma) (.mark .closeBracket) rfl rfl
      (by decide)
  · exact (Message.ofTokens_accepts_grammar _).2.2.2.2 (.mark .comma) (.mark .semicolon) rfl rfl
      (by decide)

end CorpusAnnotator.TextFormat
