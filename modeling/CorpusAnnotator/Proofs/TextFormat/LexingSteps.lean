import CorpusAnnotator.Proofs.TextFormat.Lexing

/-! Cutting a text step by step. A step takes some characters away, puts out a token or none, and
counts the lines that it passes; on which line it starts makes no difference to it. -/
namespace CorpusAnnotator.TextFormat

open Results

variable {quote c : Char} {text rest : List Char} {out : Option Token} {lines : Nat}

/-! ## Steps -/

/-- One step, from a text to the rest of it. -/
inductive LexStep : List Char → Option Token → Nat → List Char → Prop where
  | newline {rest : List Char} : LexStep ('\n' :: rest) none 1 rest
  | blank {c : Char} {rest : List Char} : c ≠ '\n' → Text.isBlank c = true →
      LexStep (c :: rest) none 0 rest
  | comment {rest : List Char} : LexStep ('#' :: rest) none 0 (rest.dropWhile (· != '\n'))
  | mark {rest : List Char} (m : Mark) : LexStep (m.char :: rest) (some (.mark m)) 0 rest
  | literal {quote : Char} {text rest : List Char} {value : String} {hr} :
      quote = '"' ∨ quote = '\'' → literal quote text = .ok ⟨value, rest, hr⟩ →
      LexStep (quote :: text) (some (.literal value)) 0 rest
  | word {c : Char} {rest : List Char} : isWordChar c = true →
      LexStep (c :: rest) (some (.word (String.ofList (c :: rest.takeWhile isWordChar)))) 0
        (rest.dropWhile isWordChar)

/-- What a step puts out, on the line where it starts. -/
def putOut (out : Option Token) (line : Nat) : List Located :=
  out.toList.map (⟨·, line⟩)

theorem LexStep.length_lt (h : LexStep text out lines rest) : rest.length < text.length := by
  cases h with
  | newline => exact Nat.lt_succ_self _
  | blank _ _ => exact Nat.lt_succ_self _
  | comment => exact Nat.lt_succ_of_le (List.dropWhile_sublist _).length_le
  | mark _ => exact Nat.lt_succ_self _
  | @literal quote text rest value hr _ _ => exact Nat.lt_succ_of_lt hr
  | word _ => exact Nat.lt_succ_of_le (List.dropWhile_sublist _).length_le

theorem map_append_nil (r : Except Error (List Located)) : r.map ([] ++ ·) = r := by
  cases r <;> rfl

theorem tokensFrom_takeWhile (h : isWordChar c = true) (line : Nat) :
    tokensFrom line (c :: rest) = (tokensFrom line (rest.dropWhile isWordChar)).map
      (⟨.word (String.ofList (c :: rest.takeWhile isWordChar)), line⟩ :: ·) := by
  have hword : ∀ d ∈ c :: rest.takeWhile isWordChar, isWordChar d = true :=
    List.forall_mem_cons.mpr ⟨h, fun d hd => List.all_eq_true.mp List.all_takeWhile d hd⟩
  have hrest : NoWordChar (rest.dropWhile isWordChar) := by
    intro d hd
    simpa [hd] using List.head?_dropWhile_not isWordChar rest
  have htokens := @tokensFrom_word line _ _ (List.cons_ne_nil _ _) hword hrest
  rwa [List.cons_append, List.takeWhile_append_dropWhile] at htokens

/-- A step is what cutting a text begins with, on every line. -/
theorem LexStep.tokensFrom (h : LexStep text out lines rest) (line : Nat) :
    tokensFrom line text = (tokensFrom (line + lines) rest).map (putOut out line ++ ·) := by
  cases h with
  | newline =>
    rw [TextFormat.tokensFrom, if_pos rfl]
    exact (map_append_nil _).symm
  | blank hline hc =>
    rw [TextFormat.tokensFrom, if_neg hline, if_pos hc]
    exact (map_append_nil _).symm
  | comment =>
    rw [TextFormat.tokensFrom, if_neg (by decide), if_neg (by decide), if_pos rfl]
    exact (map_append_nil _).symm
  | mark m => exact tokensFrom_mark m
  | literal hquote hliteral => exact tokensFrom_literal hquote hliteral
  | word hc => exact tokensFrom_takeWhile hc line

/-- A character begins a step of one kind, or nothing that can be read. -/
theorem beginning_cases (c : Char) :
    c = '\n' ∨ (c ≠ '\n' ∧ Text.isBlank c = true) ∨ c = '#' ∨ (∃ m : Mark, m.char = c) ∨
      (c = '"' ∨ c = '\'') ∨ isWordChar c = true ∨
      ∀ line rest, tokensFrom line (c :: rest) = .error ⟨line, .unexpectedChar c⟩ := by
  by_cases hline : c = '\n'
  · exact .inl hline
  by_cases hblank : Text.isBlank c = true
  · exact .inr (.inl ⟨hline, hblank⟩)
  by_cases hcomment : c = '#'
  · exact .inr (.inr (.inl hcomment))
  cases hmark : Mark.ofChar? c with
  | some m => exact .inr (.inr (.inr (.inl ⟨m, Mark.char_of_ofChar? hmark⟩)))
  | none =>
    refine .inr (.inr (.inr (.inr ?_)))
    by_cases hquote : c = '"' ∨ c = '\''
    · exact .inl hquote
    by_cases hword : isWordChar c = true
    · exact .inr (.inl hword)
    · refine .inr (.inr fun line rest => ?_)
      rw [TextFormat.tokensFrom, if_neg hline, if_neg hblank, if_neg hcomment, hmark]
      simp only
      rw [if_neg hquote, if_neg hword]

/-- Where no step can be made, the text is refused for the same cause on every line. -/
theorem lexStep_or_error (text : List Char) :
    text = [] ∨ (∃ out lines rest, LexStep text out lines rest) ∨
      ∃ cause, ∀ line, tokensFrom line text = .error ⟨line, cause⟩ := by
  cases text with
  | nil => exact .inl rfl
  | cons c rest =>
    refine .inr ?_
    rcases beginning_cases c with rfl | ⟨hline, hblank⟩ | rfl | ⟨m, rfl⟩ | hquote | hword | herror
    · exact .inl ⟨none, 1, rest, .newline⟩
    · exact .inl ⟨none, 0, rest, .blank hline hblank⟩
    · exact .inl ⟨none, 0, _, .comment⟩
    · exact .inl ⟨some (.mark m), 0, rest, .mark m⟩
    · cases hliteral : literal c rest with
      | ok taken => exact .inl ⟨_, 0, taken.rest, .literal hquote hliteral⟩
      | error cause => exact .inr ⟨cause, fun line => tokensFrom_literal_error hquote hliteral⟩
    · exact .inl ⟨_, 0, _, .word hword⟩
    · exact .inr ⟨.unexpectedChar c, fun line => herror line rest⟩

/-! ## The same text further down -/

def Located.below (lines : Nat) (t : Located) : Located :=
  { t with line := t.line + lines }

def Error.below (lines : Nat) (e : Error) : Error :=
  { e with line := e.line + lines }

theorem putOut_below (out : Option Token) (line k : Nat) :
    putOut out (line + k) = (putOut out line).map (Located.below k) := by
  cases out <;> rfl

/-- Further down a text is cut as before, and refused for the same cause: only lines change. -/
theorem tokensFrom_below (k line : Nat) (text : List Char) :
    tokensFrom (line + k) text =
      ((tokensFrom line text).map (List.map (Located.below k))).mapError (Error.below k) := by
  rcases lexStep_or_error text with rfl | ⟨out, lines, rest, hstep⟩ | ⟨cause, herror⟩
  · rw [TextFormat.tokensFrom, TextFormat.tokensFrom]
    rfl
  · have hshorter := hstep.length_lt
    rw [hstep.tokensFrom, hstep.tokensFrom, Nat.add_right_comm, tokensFrom_below k _ rest,
      putOut_below]
    cases tokensFrom (line + lines) rest with
    | error e => rfl
    | ok ts => exact congrArg Except.ok List.map_append.symm
  · rw [herror, herror]
    rfl
termination_by text.length

end CorpusAnnotator.TextFormat
