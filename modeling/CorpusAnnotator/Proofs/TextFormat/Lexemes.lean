import Mathlib.Data.List.TakeWhile
import CorpusAnnotator.Proofs.TextFormat.LiteralText
import CorpusAnnotator.Proofs.TextFormat.WithinLine

/-! The lexemes of a text: what it is cut into, blanks and comments included. A text has tokens
exactly if it is made of lexemes, and they are what its lexemes stand for, each on the line on which
its lexeme begins. Any other text is refused where the next lexeme would have to begin. -/
namespace CorpusAnnotator.TextFormat

open Results

variable {l : Lexeme} {ls : List Lexeme} {text rest before : List Char} {out : Option Token}
  {lines : Nat}

/-! ## Lexemes -/

/-- A part of a text. Of a literal both what stands between its quotes and what that spells are told.
-/
inductive Lexeme where
  | blank (c : Char)
  | comment (body : List Char)
  | mark (m : Mark)
  | word (cs : List Char)
  | literal (quote : Char) (body cs : List Char)
  deriving Repr, DecidableEq

namespace Lexeme

/-- The characters of a lexeme. -/
def form : Lexeme → List Char
  | blank c => [c]
  | comment body => '#' :: body
  | mark m => [m.char]
  | word cs => cs
  | literal quote body _ => quote :: (body ++ [quote])

/-- The token that a lexeme stands for, if it stands for one. -/
def token? : Lexeme → Option Token
  | blank _ => none
  | comment _ => none
  | mark m => some (.mark m)
  | word cs => some (.word (String.ofList cs))
  | literal _ _ cs => some (.literal (String.ofList cs))

/-- A lexeme is one in front of what follows it: a comment goes on to the end of its line, a word as
long as there are characters for it, and a literal is made of pieces up to its closing quote. -/
inductive Before (rest : List Char) : Lexeme → Prop where
  | blank {c : Char} : Text.isBlank c = true → Before rest (blank c)
  | comment {body : List Char} : '\n' ∉ body → rest = [] ∨ rest.head? = some '\n' →
      Before rest (comment body)
  | mark (m : Mark) : Before rest (mark m)
  | word {cs : List Char} : cs ≠ [] → (∀ c ∈ cs, isWordChar c = true) → NoWordChar rest →
      Before rest (word cs)
  | literal {quote : Char} {body cs : List Char} {pieces : List Piece} :
      quote = '"' ∨ quote = '\'' → Reads quote (body ++ [quote]) pieces [] → Spells pieces cs →
      Before rest (literal quote body cs)

end Lexeme

/-- A text is cut into lexemes, from its front up to the rest of it. -/
inductive Cuts : List Char → List Lexeme → List Char → Prop where
  | done {rest : List Char} : Cuts rest [] rest
  | cons {l : Lexeme} {ls : List Lexeme} {text rest : List Char} : l.Before text →
      Cuts text ls rest → Cuts (l.form ++ text) (l :: ls) rest

/-- There is something left, and no lexeme that it begins with. -/
def Stuck (text : List Char) : Prop :=
  text ≠ [] ∧ ∀ (l : Lexeme) rest, text = l.form ++ rest → ¬ l.Before rest

/-- What lexemes stand for, behind the characters `before` of their text. The line of a token is told
by the newlines in front of it. -/
def located (before : List Char) : List Lexeme → List Located
  | [] => []
  | l :: ls => putOut l.token? (1 + before.count '\n') ++ located (before ++ l.form) ls

/-! ## Lexemes and steps -/

/-- Only the next character matters to where an escape ends. -/
theorem EscapeBefore.of_head? {rest rest' form : List Char} {byte : UInt8}
    (h : EscapeBefore rest byte form) (hhead : rest'.head? = rest.head?) :
    EscapeBefore rest' byte form := by
  cases h with
  | named h => exact .named h
  | hex hm hn ha hb => exact .hex hm hn ha hb
  | octal hne hlength hdigits hend hvalue =>
    refine .octal hne hlength hdigits (hend.imp_right fun hnone d hd => ?_) hvalue
    rw [hhead]
    exact hnone d hd

theorem head?_append_cons (front rest rest' : List Char) (c : Char) :
    (front ++ c :: rest).head? = (front ++ c :: rest').head? := by
  cases front <;> rfl

/-- What is read up to a closing quote is a literal by itself. -/
theorem Reads.exists_body {quote : Char} {pieces : List Piece} (h : Reads quote text pieces rest) :
    ∃ body, text = body ++ quote :: rest ∧ Reads quote (body ++ [quote]) pieces [] := by
  induction h with
  | close => exact ⟨[], rfl, .close⟩
  | @raw c text rest pieces hline hslash hquote _ ih =>
    obtain ⟨body, rfl, hbody⟩ := ih
    exact ⟨c :: body, rfl, .raw hline hslash hquote hbody⟩
  | @escaped byte form text rest pieces hform _ ih =>
    obtain ⟨body, rfl, hbody⟩ := ih
    have hescaped := hform.of_head? (head?_append_cons body [] rest quote)
    refine ⟨'\\' :: (form ++ body), by simp, ?_⟩
    rw [List.cons_append, List.append_assoc]
    exact .escaped hescaped hbody

/-- A lexeme is taken away by one step. -/
theorem Lexeme.Before.lexStep (h : l.Before rest) :
    LexStep (l.form ++ rest) l.token? (l.form.count '\n') rest := by
  have hstep : ∃ lines, LexStep (l.form ++ rest) l.token? lines rest := by
    cases h with
    | @blank c hblank =>
      by_cases hline : c = '\n'
      · subst hline
        exact ⟨1, .newline⟩
      · exact ⟨0, .blank hline hblank⟩
    | @comment body hbody hrest =>
      have hdrop : (body ++ rest).dropWhile (· != '\n') = rest := by
        rcases hrest with rfl | hrest
        · rw [List.append_nil, List.dropWhile_eq_nil_iff]
          exact fun c hc => bne_iff_ne.mpr fun hline => hbody (hline ▸ hc)
        · obtain ⟨more, rfl⟩ := List.head?_eq_some_iff.mp hrest
          exact dropWhile_ne_newline hbody
      have hcomment := @LexStep.comment (body ++ rest)
      rw [hdrop] at hcomment
      exact ⟨0, hcomment⟩
    | mark m => exact ⟨0, .mark m⟩
    | @word cs hne hword hrest =>
      obtain ⟨c, cs, rfl⟩ := List.exists_cons_of_ne_nil hne
      obtain ⟨hc, hcs⟩ := List.forall_mem_cons.mp hword
      obtain ⟨htake, hdrop⟩ := takeWhile_word hcs hrest
      have hstep := @LexStep.word c (cs ++ rest) hc
      rw [htake, hdrop] at hstep
      exact ⟨0, hstep⟩
    | @literal quote body cs pieces hquote hpieces hspells =>
      have hmore := hpieces.append rest
      rw [List.append_assoc] at hmore
      obtain ⟨h, hliteral⟩ := hmore.literal_of_spells (isQuote_of_eq hquote) hspells
      refine ⟨0, ?_⟩
      rw [form, List.cons_append, List.append_assoc]
      exact .literal hquote hliteral
  obtain ⟨lines, hstep⟩ := hstep
  have hcount := hstep.count_newline
  rw [List.count_append, Nat.add_right_cancel_iff] at hcount
  rw [hcount]
  exact hstep

/-- What a step takes away is a lexeme. -/
theorem LexStep.exists_lexeme (h : LexStep text out lines rest) :
    ∃ l : Lexeme, text = l.form ++ rest ∧ l.Before rest := by
  cases h with
  | newline => exact ⟨.blank '\n', rfl, .blank rfl⟩
  | @blank c rest _ hblank => exact ⟨.blank c, rfl, .blank hblank⟩
  | @comment rest =>
    refine ⟨.comment (rest.takeWhile (· != '\n')), ?_, .comment ?_ ?_⟩
    · rw [Lexeme.form, List.cons_append, List.takeWhile_append_dropWhile]
    · intro hmem
      have hne := List.all_eq_true.mp (List.all_takeWhile (l := rest) (p := (· != '\n'))) '\n' hmem
      cases hne
    · have hhead := List.head?_dropWhile_not (· != '\n') rest
      cases hdrop : rest.dropWhile (· != '\n') with
      | nil => exact .inl rfl
      | cons c more =>
        rw [hdrop] at hhead
        exact .inr (by simpa using hhead)
  | mark m => exact ⟨.mark m, rfl, .mark m⟩
  | @literal quote text rest value hr hquote hliteral =>
    have hq := isQuote_of_eq hquote
    rw [← String.ofList_toList (s := value)] at hliteral
    obtain ⟨pieces, hpieces, hbytes⟩ := (literal_eq_ok_iff hq.line hq.slash).mp ⟨hr, hliteral⟩
    obtain ⟨body, rfl, hbody⟩ := hpieces.exists_body
    refine ⟨.literal quote body value.toList, ?_,
      .literal hquote hbody (bytes_eq_encode_iff.mp hbytes)⟩
    rw [Lexeme.form, List.cons_append, List.append_assoc]
    rfl
  | @word c rest hc =>
    refine ⟨.word (c :: rest.takeWhile isWordChar), ?_, .word (List.cons_ne_nil _ _) ?_ ?_⟩
    · rw [Lexeme.form, List.cons_append, List.takeWhile_append_dropWhile]
    · exact List.forall_mem_cons.mpr
        ⟨hc, fun d hd => List.all_eq_true.mp List.all_takeWhile d hd⟩
    · intro d hd
      simpa [hd] using List.head?_dropWhile_not isWordChar rest

/-! ## Cutting -/

/-- Every text is cut into lexemes up to its end, or up to where no lexeme begins. -/
theorem exists_cuts (text : List Char) :
    ∃ ls rest, Cuts text ls rest ∧ (rest = [] ∨ Stuck rest) := by
  by_cases hnil : text = []
  · exact ⟨[], text, .done, .inl hnil⟩
  by_cases hstuck : Stuck text
  · exact ⟨[], text, .done, .inr hstuck⟩
  · obtain ⟨l, rest, rfl, hl⟩ : ∃ (l : Lexeme) (rest : _), text = l.form ++ rest ∧ l.Before rest := by
      simpa [Stuck, hnil] using hstuck
    have hshorter := hl.lexStep.length_lt
    obtain ⟨ls, rest', hcuts, hrest⟩ := exists_cuts rest
    exact ⟨l :: ls, rest', .cons hl hcuts, hrest⟩
termination_by text.length

/-- Lexemes in front of a text are read as the tokens that they stand for. -/
theorem Cuts.tokensFrom (h : Cuts text ls rest) (before : List Char) :
    tokensFrom (1 + before.count '\n') text =
      (tokensFrom (1 + (before ++ ls.flatMap Lexeme.form).count '\n') rest).map
        (located before ls ++ ·) := by
  induction h generalizing before with
  | done =>
    rw [List.flatMap_nil, List.append_nil]
    exact (map_append_nil _).symm
  | @cons l ls text rest hl _ ih =>
    have hbehind := ih (before ++ l.form)
    rw [List.count_append, ← Nat.add_assoc] at hbehind
    rw [hl.lexStep.tokensFrom, hbehind, List.flatMap_cons, List.append_assoc, located]
    cases TextFormat.tokensFrom _ rest with
    | error e => rfl
    | ok ts => exact congrArg Except.ok (List.append_assoc _ _ _).symm

theorem Cuts.tokens_eq (h : Cuts text ls []) : tokens text = .ok (located [] ls) := by
  have htokens := h.tokensFrom []
  rw [TextFormat.tokensFrom.eq_def _ []] at htokens
  exact htokens.trans (congrArg Except.ok (List.append_nil _))

/-- Where no lexeme begins, no step can be made. -/
theorem Stuck.exists_error (h : Stuck rest) (line : Nat) :
    ∃ cause, tokensFrom line rest = .error ⟨line, cause⟩ := by
  obtain ⟨hne, hnone⟩ := h
  rcases lexStep_or_error rest with hnil | ⟨out, lines, rest', hstep⟩ | ⟨cause, herror⟩
  · exact absurd hnil hne
  · obtain ⟨l, hform, hl⟩ := hstep.exists_lexeme
    exact absurd hl (hnone l rest' hform)
  · exact ⟨cause, herror line⟩

theorem Cuts.exists_error (h : Cuts text ls rest) (hstuck : Stuck rest) :
    ∃ cause, tokens text = .error ⟨1 + (ls.flatMap Lexeme.form).count '\n', cause⟩ := by
  have htokens := h.tokensFrom []
  obtain ⟨cause, herror⟩ := hstuck.exists_error (1 + (ls.flatMap Lexeme.form).count '\n')
  rw [List.nil_append, herror] at htokens
  exact ⟨cause, htokens⟩

/-- A text has tokens exactly if it is made of lexemes, whose tokens they are. Else it is refused on
the line where the next lexeme would have to begin, and what stands behind that line plays no part.
-/
theorem tokens_of_lexemes (text : List Char) :
    ((∃ ts, tokens text = .ok ts) ↔ ∃ ls, Cuts text ls []) ∧
    (∀ ls, Cuts text ls [] → tokens text = .ok (located [] ls)) ∧
    ((∃ e, tokens text = .error e) ↔ ∃ ls rest, Cuts text ls rest ∧ Stuck rest) ∧
    (∀ ls rest, Cuts text ls rest → Stuck rest →
      ∃ cause, tokens text = .error ⟨1 + (ls.flatMap Lexeme.form).count '\n', cause⟩) ∧
    (∀ e front more, tokens text = .error e → text = front ++ '\n' :: more →
      e.line = 1 + front.count '\n' → ∀ more', tokens (front ++ '\n' :: more') = .error e) := by
  obtain ⟨ls, rest, hcuts, hrest⟩ := exists_cuts text
  refine ⟨⟨?_, ?_⟩, fun ls hls => hls.tokens_eq, ⟨?_, ?_⟩,
    fun ls rest hls hstuck => hls.exists_error hstuck, ?_⟩
  · rintro ⟨ts, hts⟩
    rcases hrest with rfl | hstuck
    · exact ⟨ls, hcuts⟩
    · obtain ⟨cause, herror⟩ := hcuts.exists_error hstuck
      rw [hts] at herror
      cases herror
  · rintro ⟨ls, hls⟩
    exact ⟨located [] ls, hls.tokens_eq⟩
  · rintro ⟨e, he⟩
    rcases hrest with rfl | hstuck
    · rw [hcuts.tokens_eq] at he
      cases he
    · exact ⟨ls, rest, hcuts, hstuck⟩
  · rintro ⟨ls, rest, hls, hstuck⟩
    obtain ⟨cause, herror⟩ := hls.exists_error hstuck
    exact ⟨_, herror⟩
  · rintro e front more he rfl hline more'
    exact tokensFrom_error_withinLine he (Nat.le_of_eq hline) more'

/-- A comment that ends with its line and a literal with the other quote in it, and a character that
nothing begins with on the second of three lines. -/
theorem tokens_of_lexemes_two :
    let text := ['a', ' ', '#', '\'', '\n', '\'', '"', '\'']
    let ls : List Lexeme :=
      [.word ['a'], .blank ' ', .comment ['\''], .blank '\n', .literal '\'' ['"'] ['"']]
    Cuts text ls [] ∧ tokens text = .ok [⟨.word "a", 1⟩, ⟨.literal "\"", 2⟩] ∧
    Cuts ['a', '\n', '$', '\n', '\''] [.word ['a'], .blank '\n'] ['$', '\n', '\''] ∧
    Stuck ['$', '\n', '\''] ∧
    ∃ cause, ∀ more, tokens (['a', '\n', '$'] ++ '\n' :: more) = .error ⟨2, cause⟩ := by
  intro text ls
  have hword (c : Char) (rest : List Char) (hc : isWordChar c = false) :
      Lexeme.Before (c :: rest) (.word ['a']) :=
    .word (List.cons_ne_nil _ _) (List.forall_mem_singleton.mpr rfl) (noWordChar_cons hc)
  have hcomment : Lexeme.Before ['\n', '\'', '"', '\''] (.comment ['\'']) :=
    .comment (by decide) (.inr rfl)
  have hquoted : Reads '\'' ['"', '\''] [.raw '"'] [] :=
    .raw (by decide) (by decide) (by decide) .close
  have hliteral : Lexeme.Before [] (.literal '\'' ['"'] ['"']) :=
    .literal (.inr rfl) hquoted (.raw [] (.run []))
  have hcuts : Cuts text ls [] :=
    .cons (hword ' ' _ (by decide)) (.cons (.blank rfl) (.cons hcomment (.cons (.blank rfl)
      (.cons hliteral .done))))
  have hfront : Cuts ['a', '\n', '$', '\n', '\''] [.word ['a'], .blank '\n'] ['$', '\n', '\''] :=
    .cons (hword '\n' _ (by decide)) (.cons (.blank rfl) .done)
  have hstuck : Stuck ['$', '\n', '\''] := by
    refine ⟨List.cons_ne_nil _ _, fun l rest hform hl => ?_⟩
    cases hl with
    | blank hblank =>
      cases hform
      exact absurd hblank (by decide)
    | comment _ _ => cases hform
    | mark m => cases m <;> cases hform
    | word hne hcs _ =>
      obtain ⟨c, cs, rfl⟩ := List.exists_cons_of_ne_nil hne
      obtain rfl := (List.cons.inj hform).1
      exact absurd (hcs '$' List.mem_cons_self) (by decide)
    | literal hquote _ _ => rcases hquote with rfl | rfl <;> cases hform
  obtain ⟨-, htokens, -⟩ := tokens_of_lexemes text
  obtain ⟨-, -, -, herror, hbehind⟩ := tokens_of_lexemes ['a', '\n', '$', '\n', '\'']
  obtain ⟨cause, herror⟩ := herror _ _ hfront hstuck
  exact ⟨hcuts, htokens ls hcuts, hfront, hstuck, cause,
    hbehind _ ['a', '\n', '$'] ['\''] herror rfl rfl⟩

end CorpusAnnotator.TextFormat
