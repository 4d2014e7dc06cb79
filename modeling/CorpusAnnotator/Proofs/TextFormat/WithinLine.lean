import CorpusAnnotator.Proofs.TextFormat.Concatenation
import CorpusAnnotator.Proofs.TextFormat.ErrorLines

/-! Reading within a line. No escape, literal or step of cutting goes past the end of a line, so what
it comes to is the same whatever stands on the lines behind, and so is what a text is refused for. -/
namespace CorpusAnnotator.TextFormat

open Results
open Text (Taken)

variable {α : Type} {quote : Char} {front : List Char}

/-! ## Escapes and literals -/

/-- Whatever stands behind the line, reading is refused for one cause, or it comes to one value and
stops at one place of the line. -/
def WithinLine (read : (text : List Char) → Except Cause (Taken α text)) (front : List Char) :
    Prop :=
  (∃ cause, ∀ more, read (front ++ '\n' :: more) = .error cause) ∨
    ∃ value rest, ∀ more, ∃ h, read (front ++ '\n' :: more) = .ok ⟨value, rest ++ '\n' :: more, h⟩

theorem octalDigits_withinLine (count value : Nat) (front : List Char) :
    ∃ value' rest, ∀ more,
      octalDigits count value (front ++ '\n' :: more) = (value', rest ++ '\n' :: more) := by
  induction count generalizing value front with
  | zero => exact ⟨value, front, fun _ => rfl⟩
  | succ count ih =>
    cases front with
    | nil => exact ⟨value, [], fun _ => rfl⟩
    | cons c front =>
      cases hc : octalDigit? c with
      | some d =>
        obtain ⟨value', rest, hmore⟩ := ih (8 * value + d) front
        refine ⟨value', rest, fun more => ?_⟩
        rw [List.cons_append, octalDigits, hc]
        exact hmore more
      | none =>
        refine ⟨value, c :: front, fun more => ?_⟩
        rw [List.cons_append, octalDigits, hc]

theorem hexDigit?_newline : hexDigit? '\n' = none := by decide

/-- Two hexadecimal digits are looked for, and the end of a line is none. -/
theorem escape_hex_withinLine (front : List Char) : WithinLine escape ('x' :: front) := by
  have hx : namedEscape? 'x' = none := by decide
  cases front with
  | nil =>
    refine .inl ⟨.badHexEscape, fun more => ?_⟩
    cases more <;> simp [escape, hx, hexDigit?_newline]
  | cons a front =>
    cases front with
    | nil =>
      refine .inl ⟨.badHexEscape, fun more => ?_⟩
      simp [escape, hx, hexDigit?_newline]
    | cons b front =>
      cases ha : hexDigit? a with
      | none => exact .inl ⟨.badHexEscape, fun more => by simp [escape, hx, ha]⟩
      | some m =>
        cases hb : hexDigit? b with
        | none => exact .inl ⟨.badHexEscape, fun more => by simp [escape, hx, ha, hb]⟩
        | some n =>
          refine .inr ⟨UInt8.ofNat (16 * m + n), front, fun more => ⟨?_, ?_⟩⟩
          · simp only [List.cons_append, List.length_cons]
            omega
          · simp only [List.cons_append, escape, hx, if_true, ha, hb]
            rfl

theorem escape_withinLine (front : List Char) : WithinLine escape front := by
  cases front with
  | nil => exact .inl ⟨.unknownEscape '\n', fun _ => rfl⟩
  | cons c front =>
    by_cases hx : c = 'x'
    · subst hx
      exact escape_hex_withinLine front
    cases hname : namedEscape? c with
    | some byte =>
      refine .inr ⟨byte, front, fun more => ⟨Nat.lt_succ_self _, ?_⟩⟩
      simp only [List.cons_append, escape, hname]
      rfl
    | none =>
      cases hc : octalDigit? c with
      | none =>
        refine .inl ⟨.unknownEscape c, fun more => ?_⟩
        simp only [List.cons_append, escape, hname, if_neg hx, hc]
      | some d =>
        obtain ⟨value, rest, hdigits⟩ := octalDigits_withinLine 2 d front
        by_cases hvalue : value < 256
        · refine .inr ⟨UInt8.ofNat value, rest, fun more => ⟨?_, ?_⟩⟩
          · have hlength := octalDigits_length_le 2 d (front ++ '\n' :: more)
            rw [hdigits] at hlength
            exact Nat.lt_succ_of_le hlength
          · simp only [List.cons_append, escape, hname, if_neg hx, hc, hdigits, if_pos hvalue]
        · refine .inl ⟨.octalTooLarge value, fun more => ?_⟩
          simp only [List.cons_append, escape, hname, if_neg hx, hc, hdigits, if_neg hvalue]

/-- What stops within a line leaves less of it. -/
theorem length_lt_of_append {rest more : List Char}
    (h : (rest ++ '\n' :: more).length < (front ++ '\n' :: more).length) :
    rest.length < front.length := by
  simpa using h

theorem literalBytes_withinLine (hline : quote ≠ '\n') (hslash : quote ≠ '\\')
    (front : List Char) : WithinLine (literalBytes quote) front := by
  cases front with
  | nil =>
    refine .inl ⟨.unterminatedLiteral, fun more => ?_⟩
    rw [List.nil_append, literalBytes, if_pos rfl]
  | cons c front =>
    by_cases hc : c = '\n'
    · refine .inl ⟨.unterminatedLiteral, fun more => ?_⟩
      rw [List.cons_append, literalBytes, if_pos hc]
    by_cases hquote : c = quote
    · subst hquote
      exact .inr ⟨[], front, fun more => literalBytes_closing hline⟩
    by_cases hback : c = '\\'
    · subst hback
      rcases escape_withinLine front with ⟨cause, herror⟩ | ⟨byte, after, hescape⟩
      · refine .inl ⟨cause, fun more => ?_⟩
        rw [List.cons_append, literalBytes, if_neg hc, if_neg hquote, if_pos rfl, herror,
          error_bind]
      · have hshorter : after.length < front.length := length_lt_of_append (hescape []).1
        rcases literalBytes_withinLine hline hslash after with ⟨cause, herror⟩ |
          ⟨bytes, rest, hbytes⟩
        · refine .inl ⟨cause, fun more => ?_⟩
          obtain ⟨h, hescape⟩ := hescape more
          rw [List.cons_append, literalBytes, if_neg hc, if_neg hquote, if_pos rfl, hescape,
            ok_bind]
          simp only
          rw [herror, error_bind]
        · refine .inr ⟨byte :: bytes, rest, fun more => ?_⟩
          obtain ⟨h, hescape⟩ := hescape more
          obtain ⟨h', hbytes⟩ := hbytes more
          exact literalBytes_escaped hslash hescape hbytes
    · rcases literalBytes_withinLine hline hslash front with ⟨cause, herror⟩ |
        ⟨bytes, rest, hbytes⟩
      · refine .inl ⟨cause, fun more => ?_⟩
        rw [List.cons_append, literalBytes, if_neg hc, if_neg hquote, if_neg hback, herror,
          error_bind]
      · refine .inr ⟨String.utf8EncodeChar c ++ bytes, rest, fun more => ?_⟩
        obtain ⟨h, hbytes⟩ := hbytes more
        exact literalBytes_raw hc hback hquote hbytes
termination_by front.length

theorem literal_withinLine (hquote : quote = '"' ∨ quote = '\'') (front : List Char) :
    WithinLine (literal quote) front := by
  have hq := isQuote_of_eq hquote
  rcases literalBytes_withinLine hq.line hq.slash front with ⟨cause, herror⟩ |
    ⟨bytes, rest, hbytes⟩
  · refine .inl ⟨cause, fun more => ?_⟩
    rw [literal, herror, error_bind]
  · cases hdecode : Text.Utf8.decode bytes with
    | error e =>
      refine .inl ⟨.notUtf8 e, fun more => ?_⟩
      obtain ⟨h, hbytes⟩ := hbytes more
      rw [literal, hbytes, ok_bind]
      simp only [hdecode]
      rfl
    | ok cs =>
      refine .inr ⟨String.ofList cs, rest, fun more => ?_⟩
      obtain ⟨h, hbytes⟩ := hbytes more
      refine ⟨h, ?_⟩
      rw [literal, hbytes, ok_bind]
      simp only [hdecode]
      rfl

/-! ## Steps -/

/-- Within a line a step can be made or not, whatever stands behind the line. -/
theorem lexStep_or_error_withinLine (c : Char) (front : List Char) :
    (∃ out lines rest, ∀ more,
      LexStep (c :: (front ++ '\n' :: more)) out lines (rest ++ '\n' :: more)) ∨
    ∃ cause, ∀ more line,
      tokensFrom line (c :: (front ++ '\n' :: more)) = .error ⟨line, cause⟩ := by
  rcases beginning_cases c with rfl | ⟨hline, hblank⟩ | rfl | ⟨m, rfl⟩ | hquote | hword | herror
  · exact .inl ⟨none, 1, front, fun _ => .newline⟩
  · exact .inl ⟨none, 0, front, fun _ => .blank hline hblank⟩
  · refine .inl ⟨none, 0, front.dropWhile (· != '\n'), fun more => ?_⟩
    rw [← dropWhile_append_cons (by decide) front more]
    exact .comment
  · exact .inl ⟨some (.mark m), 0, front, fun _ => .mark m⟩
  · rcases literal_withinLine hquote front with ⟨cause, herror⟩ | ⟨value, rest, hliteral⟩
    · exact .inr ⟨cause, fun more line => tokensFrom_literal_error hquote (herror more)⟩
    · refine .inl ⟨some (.literal value), 0, rest, fun more => ?_⟩
      obtain ⟨h, hliteral⟩ := hliteral more
      exact .literal hquote hliteral
  · have hend : isWordChar '\n' = false := by decide
    refine .inl ⟨some (.word (String.ofList (c :: front.takeWhile isWordChar))), 0,
      front.dropWhile isWordChar, fun more => ?_⟩
    rw [← dropWhile_append_cons hend front more, ← takeWhile_append_cons hend front more]
    exact .word hword
  · exact .inr ⟨.unexpectedChar c, fun more line => herror line _⟩

/-- What a text is refused for stands on one line, and what stands behind that line does not change
it. -/
theorem tokensFrom_error_withinLine {line : Nat} {front more : List Char} {e : Error}
    (h : tokensFrom line (front ++ '\n' :: more) = .error e)
    (hline : e.line ≤ line + front.count '\n') (more' : List Char) :
    tokensFrom line (front ++ '\n' :: more') = .error e := by
  cases front with
  | nil =>
    -- the line has ended before the place where reading stops
    rw [List.nil_append, LexStep.newline.tokensFrom, map_eq_error_iff] at h
    have hfirst := (isLine_of_tokensFrom_error h).first_le
    rw [List.count_nil] at hline
    omega
  | cons c front =>
    rcases lexStep_or_error_withinLine c front with ⟨out, lines, rest, hstep⟩ | ⟨cause, herror⟩
    · have hshorter : rest.length < (c :: front).length := length_lt_of_append (hstep []).length_lt
      have hcount := (hstep more).count_newline
      rw [← List.cons_append, List.count_append, List.count_append] at hcount
      rw [List.cons_append, (hstep more).tokensFrom, map_eq_error_iff] at h
      rw [List.cons_append, (hstep more').tokensFrom, map_eq_error_iff]
      exact tokensFrom_error_withinLine h (by omega) more'
    · rw [List.cons_append, herror] at h ⊢
      exact h
termination_by front.length

end CorpusAnnotator.TextFormat
