import Mathlib.Control.Monad.Basic
import CorpusAnnotator.Proofs.TextFormat.LexingSteps
import CorpusAnnotator.Proofs.TextFormat.Renumbering

/-! Lines as errors tell them. An error names a line that the text has, and a text that stands
further down is refused for the same cause, further down by as many lines. -/
namespace CorpusAnnotator.TextFormat

open Results

variable {quote : Char} {text rest form : List Char} {byte : UInt8} {pieces : List Piece}
  {first line : Nat}

/-! ## Lines that are passed -/

theorem ne_newline_of_mem_namedEscapes : ∀ entry ∈ namedEscapes, entry.1 ≠ '\n' := by
  decide

theorem ne_newline_of_mem_hexDigitChars {n : Nat} (hn : n < 16) :
    ∀ c ∈ hexDigitChars n, c ≠ '\n' := by
  rintro c hc rfl
  have hread : hexDigit? '\n' = some n := hexDigit?_of_mem hn '\n' hc
  have hnone : hexDigit? '\n' = none := by decide
  cases hread.symm.trans hnone

theorem digitChar_ne_newline : ∀ d < 8, d.digitChar ≠ '\n' := by
  decide

theorem EscapeBefore.newline_notMem (h : EscapeBefore rest byte form) : '\n' ∉ form := by
  intro hmem
  cases h with
  | named h =>
    exact ne_newline_of_mem_namedEscapes _ h (List.mem_singleton.mp hmem).symm
  | @hex m n a b hm hn ha hb =>
    rcases List.mem_cons.mp hmem with h | hmem
    · exact absurd h (by decide)
    rcases List.mem_cons.mp hmem with h | hmem
    · exact ne_newline_of_mem_hexDigitChars hm a ha h.symm
    · exact ne_newline_of_mem_hexDigitChars hn b hb (List.mem_singleton.mp hmem).symm
  | octal _ _ hdigits _ _ =>
    obtain ⟨d, hd, h⟩ := List.mem_map.mp hmem
    exact digitChar_ne_newline d (hdigits d hd) h

/-- A literal stands on one line. -/
theorem Reads.count_newline (h : Reads quote text pieces rest) (hquote : quote ≠ '\n') :
    text.count '\n' = rest.count '\n' := by
  induction h with
  | close => exact List.count_cons_of_ne hquote
  | raw hline _ _ _ ih => rw [List.count_cons_of_ne hline, ih]
  | escaped hform _ ih =>
    rw [List.count_cons_of_ne (by decide), List.count_append,
      List.count_eq_zero_of_not_mem hform.newline_notMem, Nat.zero_add, ih]

theorem count_newline_of_literal {value : String} {hr} (hquote : quote = '"' ∨ quote = '\'')
    (h : literal quote text = .ok ⟨value, rest, hr⟩) : text.count '\n' = rest.count '\n' := by
  have hq := isQuote_of_eq hquote
  rw [← String.ofList_toList (s := value)] at h
  obtain ⟨pieces, hpieces, -⟩ := (literal_eq_ok_iff hq.line hq.slash).mp ⟨hr, h⟩
  exact hpieces.count_newline hq.line

theorem count_newline_dropWhile {p : Char → Bool} (h : ∀ c, p c = true → c ≠ '\n')
    (text : List Char) : (text.dropWhile p).count '\n' = text.count '\n' := by
  induction text with
  | nil => rfl
  | cons c text ih =>
    cases hc : p c with
    | true => rw [List.dropWhile_cons_of_pos hc, ih, List.count_cons_of_ne (h c hc)]
    | false => rw [List.dropWhile_cons_of_neg (by simp [hc])]

/-- A step counts the ends of lines that it takes away. -/
theorem LexStep.count_newline {out : Option Token} {lines : Nat}
    (h : LexStep text out lines rest) : text.count '\n' = lines + rest.count '\n' := by
  cases h with
  | newline => rw [List.count_cons_self, Nat.add_comm]
  | blank hline _ => rw [List.count_cons_of_ne hline, Nat.zero_add]
  | comment =>
    rw [List.count_cons_of_ne (by decide), count_newline_dropWhile (by simp), Nat.zero_add]
  | mark m =>
    have hm : m.char ≠ '\n' := by cases m <;> decide
    rw [List.count_cons_of_ne hm, Nat.zero_add]
  | literal hquote hliteral =>
    rw [List.count_cons_of_ne (isQuote_of_eq hquote).line,
      count_newline_of_literal hquote hliteral, Nat.zero_add]
  | word hc =>
    have hword : ∀ c, isWordChar c = true → c ≠ '\n' :=
      fun c hc => ne_of_isWordChar hc (by decide)
    rw [List.count_cons_of_ne (hword _ hc), count_newline_dropWhile hword, Nat.zero_add]

/-! ## Lines of a text -/

/-- A line of a text whose first line is `first`. -/
structure IsLine (first : Nat) (text : List Char) (line : Nat) : Prop where
  first_le : first ≤ line
  le_last : line ≤ first + text.count '\n'

theorem LexStep.isLine {out : Option Token} {lines : Nat} (h : LexStep text out lines rest)
    (hline : IsLine (first + lines) rest line) : IsLine first text line := by
  obtain ⟨hfirst, hlast⟩ := hline
  have hcount := h.count_newline
  exact ⟨by omega, by omega⟩

theorem isLine_first (first : Nat) (text : List Char) : IsLine first text first :=
  ⟨Nat.le_refl first, Nat.le_add_right first _⟩

/-- Tokens stand on lines of their text. -/
theorem isLine_of_mem_tokensFrom {first : Nat} {text : List Char} {ts : List Located}
    (h : tokensFrom first text = .ok ts) {t : Located} (ht : t ∈ ts) :
    IsLine first text t.line := by
  rcases lexStep_or_error text with rfl | ⟨out, lines, rest, hstep⟩ | ⟨cause, herror⟩
  · rw [tokensFrom] at h
    cases h
    cases ht
  · have hshorter := hstep.length_lt
    rw [hstep.tokensFrom] at h
    obtain ⟨after, hafter, rfl⟩ := map_eq_ok_iff.mp h
    rcases List.mem_append.mp ht with ht | ht
    · -- a token that the step puts out stands where the step starts
      obtain ⟨token, -, rfl⟩ := List.mem_map.mp ht
      exact isLine_first first text
    · exact hstep.isLine (isLine_of_mem_tokensFrom hafter ht)
  · rw [herror] at h
    cases h
termination_by text.length

theorem isLine_of_tokensFrom_error {first : Nat} {text : List Char} {e : Error}
    (h : tokensFrom first text = .error e) : IsLine first text e.line := by
  rcases lexStep_or_error text with rfl | ⟨out, lines, rest, hstep⟩ | ⟨cause, herror⟩
  · rw [tokensFrom] at h
    cases h
  · have hshorter := hstep.length_lt
    rw [hstep.tokensFrom] at h
    exact hstep.isLine (isLine_of_tokensFrom_error (map_eq_error_iff.mp h))
  · rw [herror] at h
    cases h
    exact isLine_first first text
termination_by text.length

/-! ## Messages -/

/-- An error names a line that the text has. -/
theorem Message.isLine_of_read {s : String} {e : Error} (h : Message.read s = .error e) :
    IsLine 1 s.toList e.line := by
  rcases bind_eq_error_iff.mp h with htokens | ⟨ts, htokens, hread⟩
  · exact isLine_of_tokensFrom_error htokens
  · obtain ⟨t, ht, hline⟩ := exists_line_eq_of_ofTokens hread
    exact hline ▸ isLine_of_mem_tokensFrom htokens ht

/-- Behind a gap a text is read as it is by itself, or refused as many lines further down. -/
theorem Message.read_gap_append {gap : List Char} (h : Gap gap) (s : String) :
    Message.read (String.ofList gap ++ s) =
      (Message.read s).mapError (Error.below (gap.count '\n')) := by
  have htext : (String.ofList gap ++ s).toList = gap ++ s.toList := by
    rw [String.toList_append, String.toList_ofList]
  rw [Message.read, Message.read, tokens, htext, h.tokensFrom, tokensFrom_below, tokens]
  cases tokensFrom 1 s.toList with
  | error e => rfl
  | ok ts => exact Message.ofTokens_renumber (· + gap.count '\n') ts

/-- The line in front of a message is the only part of it that depends on where a text stands, and
it is one of the lines of the text. -/
theorem Message.read_tells_lines (s : String) :
    (∀ gap : List Char, Gap gap →
      let lines := gap.count '\n'
      Message.read (String.ofList gap ++ s) = (Message.read s).mapError (Error.below lines) ∧
      ∀ e, Message.read s = .error e →
        e.message = s!"line {e.line}: " ++ e.cause.message ∧
        (e.below lines).message = s!"line {e.line + lines}: " ++ e.cause.message) ∧
    ∀ e, Message.read s = .error e → 1 ≤ e.line ∧ e.line ≤ 1 + s.toList.count '\n' := by
  refine ⟨fun gap h => ⟨Message.read_gap_append h s, fun e _ => ⟨rfl, rfl⟩⟩, fun e h => ?_⟩
  obtain ⟨hfirst, hlast⟩ := Message.isLine_of_read h
  exact ⟨hfirst, hlast⟩

/-- Behind an empty line and a comment, a missing brace is missed on the fourth line and not on the
second. -/
theorem Message.read_tells_lines_unclosed :
    let gap := ['\n', '#', ' ', '\x7d', '\n']
    let e : Error := ⟨2, .missing .closeBrace⟩
    Gap gap ∧ Message.read "a\n\x7b" = .error e ∧
    Message.read (String.ofList gap ++ "a\n\x7b") = .error ⟨4, .missing .closeBrace⟩ ∧
    (e.below 2).message = "line 4: missing '\x7d'" ∧ 1 ≤ e.line ∧ e.line ≤ 1 + 1 := by
  intro gap e
  have hgap : Gap gap := .blank (by decide) (@Gap.comment [' ', '\x7d'] [] (by decide) .none)
  have hread : Message.read "a\n\x7b" = .error e := by decide +kernel
  obtain ⟨hbehind, hline⟩ := Message.read_tells_lines "a\n\x7b"
  obtain ⟨hbelow, hmessage⟩ := hbehind gap hgap
  refine ⟨hgap, hread, ?_, ?_, hline e hread⟩
  · rw [hbelow, hread]
    rfl
  · exact (hmessage e hread).2.trans (by decide)

end CorpusAnnotator.TextFormat
