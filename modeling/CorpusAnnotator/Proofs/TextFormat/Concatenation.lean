import CorpusAnnotator.Proofs.TextFormat.Acceptance
import CorpusAnnotator.Proofs.TextFormat.LexingSteps

/-! One text behind the other, on lines of its own. Neither cutting nor reading looks past the end
of a line: the message of both texts is that of the first followed by that of the second. -/
namespace CorpusAnnotator.TextFormat

open Results

variable {quote c : Char} {text rest form : List Char} {byte : UInt8} {pieces : List Piece}

/-! ## Literals with more behind them -/

theorem EscapeBefore.append (h : EscapeBefore rest byte form) (hne : rest ≠ []) (more : List Char) :
    EscapeBefore (rest ++ more) byte form := by
  cases h with
  | named h => exact .named h
  | hex hm hn ha hb => exact .hex hm hn ha hb
  | octal hdigits hlength hlt hend hvalue =>
    -- the next character is the same, so digits end where they ended
    obtain ⟨c, rest, rfl⟩ := List.exists_cons_of_ne_nil hne
    exact .octal hdigits hlength hlt hend hvalue

theorem Reads.ne_nil (h : Reads quote text pieces rest) : text ≠ [] := by
  cases h <;> exact List.cons_ne_nil _ _

theorem Reads.append (h : Reads quote text pieces rest) (more : List Char) :
    Reads quote (text ++ more) pieces (rest ++ more) := by
  induction h with
  | close => exact .close
  | raw hline hslash hquote _ ih => exact .raw hline hslash hquote ih
  | escaped hform hmore ih =>
    rw [List.cons_append, List.append_assoc]
    exact .escaped (hform.append hmore.ne_nil more) ih

/-- A literal ends at its closing quote, whatever stands behind it. -/
theorem literal_append {value : String} {hr} (hquote : quote = '"' ∨ quote = '\'')
    (h : literal quote text = .ok ⟨value, rest, hr⟩) (more : List Char) :
    ∃ hr, literal quote (text ++ more) = .ok ⟨value, rest ++ more, hr⟩ := by
  have hq := isQuote_of_eq hquote
  rw [← String.ofList_toList (s := value)] at h ⊢
  obtain ⟨pieces, hpieces, hbytes⟩ := (literal_eq_ok_iff hq.line hq.slash).mp ⟨hr, h⟩
  exact (literal_eq_ok_iff hq.line hq.slash).mpr ⟨pieces, hpieces.append more, hbytes⟩

/-! ## The end of a line -/

theorem takeWhile_append_cons {p : Char → Bool} (h : p c = false) (text more : List Char) :
    (text ++ c :: more).takeWhile p = text.takeWhile p := by
  induction text with
  | nil => exact List.takeWhile_cons_of_neg (by simp [h])
  | cons d text ih => cases hd : p d <;> simp [hd, ih]

theorem dropWhile_append_cons {p : Char → Bool} (h : p c = false) (text more : List Char) :
    (text ++ c :: more).dropWhile p = text.dropWhile p ++ c :: more := by
  induction text with
  | nil => exact List.dropWhile_cons_of_neg (by simp [h])
  | cons d text ih => cases hd : p d <;> simp [hd, ih]

/-- A line that ends behind the text of a step does not change the step. -/
theorem LexStep.append_newline {out : Option Token} {lines : Nat}
    (h : LexStep text out lines rest) (more : List Char) :
    LexStep (text ++ '\n' :: more) out lines (rest ++ '\n' :: more) := by
  cases h with
  | newline => exact .newline
  | blank hline hc => exact .blank hline hc
  | @comment rest =>
    rw [← dropWhile_append_cons (by decide) rest more]
    exact .comment
  | mark m => exact .mark m
  | literal hquote hliteral =>
    obtain ⟨hr, hmore⟩ := literal_append hquote hliteral ('\n' :: more)
    exact .literal hquote hmore
  | @word c rest hc =>
    have hend : isWordChar '\n' = false := by decide
    rw [← dropWhile_append_cons hend rest more, ← takeWhile_append_cons hend rest more]
    exact .word hc

/-- Behind the end of a line, cutting starts as it does at the beginning. -/
theorem exists_tokensFrom_append_newline {line : Nat} {text : List Char} {ts : List Located}
    (h : tokensFrom line text = .ok ts) :
    ∃ lines, ∀ more, tokensFrom line (text ++ '\n' :: more) =
      (tokensFrom (line + lines) more).map (ts ++ ·) := by
  rcases lexStep_or_error text with rfl | ⟨out, lines, rest, hstep⟩ | ⟨cause, herror⟩
  · rw [TextFormat.tokensFrom] at h
    cases h
    refine ⟨1, fun more => ?_⟩
    exact LexStep.newline.tokensFrom line
  · have hshorter := hstep.length_lt
    rw [hstep.tokensFrom] at h
    obtain ⟨after, hafter, rfl⟩ := map_eq_ok_iff.mp h
    obtain ⟨lines', hmore⟩ := exists_tokensFrom_append_newline hafter
    refine ⟨lines + lines', fun more => ?_⟩
    rw [(hstep.append_newline more).tokensFrom, hmore, Nat.add_assoc]
    cases tokensFrom (line + (lines + lines')) more with
    | error e => rfl
    | ok ts => exact congrArg Except.ok (List.append_assoc _ _ _).symm
  · rw [herror] at h
    cases h
termination_by text.length

/-! ## Messages -/

/-- The fields of one phrase followed by those of another. -/
def MessagePhrase.append : MessagePhrase → MessagePhrase → MessagePhrase
  | .empty, q => q
  | .field name body separator rest, q => .field name body separator (rest.append q)

theorem MessagePhrase.tokens_append (p q : MessagePhrase) :
    (p.append q).tokens = p.tokens ++ q.tokens := by
  fun_induction MessagePhrase.append p q with
  | case1 q => rfl
  | case2 name body separator rest q ih => simp [MessagePhrase.tokens, ih]

theorem MessagePhrase.message_append (p q : MessagePhrase) :
    (p.append q).message = p.message ++ q.message := by
  fun_induction MessagePhrase.append p q with
  | case1 q => rfl
  | case2 name body separator rest q ih => simp [MessagePhrase.message, ih]

/-- Tokens that stand behind those of another message are read as they are by themselves. -/
theorem Message.ofTokens_append {ts us : List Located} {m n : Message}
    (hm : Message.ofTokens ts = .ok m) (hn : Message.ofTokens us = .ok n) :
    Message.ofTokens (ts ++ us) = .ok (m ++ n) := by
  obtain ⟨p, hp, rfl⟩ := exists_phrase_of_ofTokens hm
  obtain ⟨q, hq, rfl⟩ := exists_phrase_of_ofTokens hn
  rw [← MessagePhrase.message_append]
  apply MessagePhrase.ofTokens_eq
  rw [MessagePhrase.tokens_append, hp, hq]
  exact List.map_append

/-- Only what the tokens are decides what is read from them. -/
theorem Message.ofTokens_of_bare {ts us : List Located} {m : Message} (hbare : bare us = bare ts)
    (h : Message.ofTokens ts = .ok m) : Message.ofTokens us = .ok m := by
  obtain ⟨p, hp, rfl⟩ := exists_phrase_of_ofTokens h
  exact p.ofTokens_eq (hbare.trans hp.symm)

theorem bare_map_below (lines : Nat) (ts : List Located) :
    bare (ts.map (Located.below lines)) = bare ts := by
  rw [bare, List.map_map]
  rfl

/-- Two texts that are read, one behind the other on lines of its own, are read as the fields of the
first followed by those of the second. -/
theorem Message.read_append_line {s t : String} {m n : Message} (hs : Message.read s = .ok m)
    (ht : Message.read t = .ok n) : Message.read (s ++ "\n" ++ t) = .ok (m ++ n) := by
  obtain ⟨ts, htokens, hm⟩ := bind_eq_ok_iff.mp hs
  obtain ⟨us, hus, hn⟩ := bind_eq_ok_iff.mp ht
  obtain ⟨lines, happend⟩ := exists_tokensFrom_append_newline htokens
  have htext : (s ++ "\n" ++ t).toList = s.toList ++ '\n' :: t.toList := by
    simp [String.toList_append]
  have hbelow : tokensFrom (1 + lines) t.toList = .ok (us.map (Located.below lines)) := by
    rw [tokensFrom_below, show tokensFrom 1 t.toList = .ok us from hus]
    rfl
  rw [Message.read, tokens, htext, happend, hbelow, map_ok, ok_bind]
  exact Message.ofTokens_append hm (Message.ofTokens_of_bare (bare_map_below lines us) hn)

/-- A text that ends within a comment, and one that begins with a bracket. -/
theorem Message.read_append_line_comment :
    Message.read "a:'p'#'q'" = .ok [("a", .scalar "p")] ∧
    Message.read "[b]:x" = .ok [("[b]", .scalar "x")] ∧
    Message.read ("a:'p'#'q'" ++ "\n" ++ "[b]:x") =
      .ok [("a", .scalar "p"), ("[b]", .scalar "x")] := by
  have hs : Message.read "a:'p'#'q'" = .ok [("a", .scalar "p")] := by
    have hp : LiteralBody '\'' ['p'] ['p'] := .raw (by decide) (by decide) (by decide) .nil
    obtain ⟨hr, hliteral⟩ := hp.literal (by decide) (by decide) ['#', '\'', 'q', '\'']
    have hcomment : tokensFrom 1 ['#', '\'', 'q', '\''] = .ok [] := by
      rw [LexStep.comment.tokensFrom 1]
      exact congrArg (Except.map _) (TextFormat.tokensFrom.eq_1 1)
    have hvalue := (tokensFrom_literal (.inr rfl) hliteral).trans (congrArg _ hcomment)
    have hcolon := (tokensFrom_mark .colon).trans (congrArg _ hvalue)
    have htokens : tokens "a:'p'#'q'".toList = .ok
        [⟨.word "a", 1⟩, ⟨.mark .colon, 1⟩, ⟨.literal "p", 1⟩] :=
      (tokensFrom_takeWhile rfl 1).trans (congrArg _ hcolon)
    rw [Message.read, htokens, ok_bind]
    exact (MessagePhrase.field (.word "a") (.scalar (.literals "p" [])) .nothing
      .empty).ofTokens_eq rfl
  have ht : Message.read "[b]:x" = .ok [("[b]", .scalar "x")] := by
    have hb : Spelling (.word "b") ['b'] :=
      .word (List.cons_ne_nil _ _) (List.forall_mem_singleton.mpr rfl)
    have hx : Spelling (.word "x") ['x'] :=
      .word (List.cons_ne_nil _ _) (List.forall_mem_singleton.mpr rfl)
    have hvalue := @Layout.mark false _ _ .colon (.cons .none (fun h => by cases h) hx (.nil .none))
    have hlayout := @Layout.mark false _ _ .openBracket
      (.cons .none (fun h => by cases h) hb (.mark .closeBracket hvalue))
    obtain ⟨us, htokens, hbare⟩ := hlayout.tokensFrom 1
    have htokens : tokens "[b]:x".toList = .ok us := htokens
    rw [Message.read, htokens, ok_bind]
    exact (MessagePhrase.field (.extension "b") (.scalar (.word "x")) .nothing
      .empty).ofTokens_eq hbare
  exact ⟨hs, ht, Message.read_append_line hs ht⟩

end CorpusAnnotator.TextFormat
