import Mathlib.Logic.Relation
import CorpusAnnotator.Proofs.Evaluation.Streams

/-! Edits that add blanks where they say nothing: lines of their own, ends of lines, and the carriage
returns of another convention for ending them. Whatever is edited in this way has the lines that it
had, so that the same report is read from it, or the same error. -/
namespace CorpusAnnotator.Evaluation.Report

variable {text text' blanks after : List Char}

/-! ## Edits -/

/-- Blanks that stand within one line. -/
structure Blanks (text : List Char) : Prop where
  blank : ∀ c ∈ text, Text.isBlank c = true
  oneLine : '\n' ∉ text

/-- One edit. A line begins at the start of a text and behind each newline, and ends in front of each
newline and at the end. -/
inductive BlankEdit : List Char → List Char → Prop where
  /-- A blank line in front of a line. -/
  | lineBefore {before blanks after : List Char} : before = [] ∨ before.getLast? = some '\n' →
      Blanks blanks → BlankEdit (before ++ after) (before ++ (blanks ++ '\n' :: after))
  /-- A blank line behind the last line. -/
  | lineBehind {text blanks : List Char} : Blanks blanks → BlankEdit text (text ++ '\n' :: blanks)
  /-- Blanks at the end of a line. -/
  | trailing {before blanks after : List Char} : after = [] ∨ after.head? = some '\n' →
      Blanks blanks → BlankEdit (before ++ after) (before ++ (blanks ++ after))
  /-- A carriage return in front of a newline. -/
  | carriageReturn {before after : List Char} :
      BlankEdit (before ++ '\n' :: after) (before ++ '\r' :: '\n' :: after)

/-- Any number of edits, one after the other. -/
abbrev BlankEdits : List Char → List Char → Prop := Relation.ReflTransGen BlankEdit

/-! ## The lines of an edited text -/

theorem Blanks.lines_eq_nil (h : Blanks blanks) : lines blanks = [] :=
  lines_of_blank h.oneLine h.blank

/-- Blanks at the end of a text are at the end of its last line. -/
theorem Blanks.lines_append (h : Blanks blanks) (text : List Char) :
    lines (text ++ blanks) = lines text := by
  have hopen : '\n' ∉ openLine text := newline_notMem_openLine text
  have hboth : '\n' ∉ openLine text ++ blanks :=
    fun hmem => (List.mem_append.mp hmem).elim hopen h.oneLine
  have hlast : lines (openLine text ++ blanks) = lines (openLine text) := by
    rw [lines_of_notMem hboth, lines_of_notMem hopen, Text.trimEnd_append_of_blank h.blank]
  rw [lines_eq_closed_append text, ← hlast, ← lines_append_of_closed (closedLines_cases text),
    ← List.append_assoc, closedLines_append_openLine]

theorem lines_append_of_ended (h : text = [] ∨ text.getLast? = some '\n') (after : List Char) :
    lines (text ++ after) = lines text ++ lines after :=
  lines_append_of_closed (h.imp_right List.getLast?_eq_some_iff.mp) after

theorem lines_append_of_begun (h : after = [] ∨ after.head? = some '\n') (text : List Char) :
    lines (text ++ after) = lines text ++ lines after :=
  lines_append_of_further (h.imp_right List.head?_eq_some_iff.mp) text

theorem BlankEdit.lines_eq (h : BlankEdit text text') : lines text' = lines text := by
  cases h with
  | @lineBefore before blanks after hbefore hblanks =>
    rw [lines_append_of_ended hbefore, lines_append_of_ended hbefore, lines_append_newline,
      hblanks.lines_eq_nil, List.nil_append]
  | @lineBehind text blanks hblanks =>
    rw [lines_append_newline, hblanks.lines_eq_nil, List.append_nil]
  | @trailing before blanks after hafter hblanks =>
    rw [← List.append_assoc, lines_append_of_begun hafter, lines_append_of_begun hafter,
      hblanks.lines_append]
  | @carriageReturn before after =>
    have hreturn : Blanks ['\r'] := ⟨List.forall_mem_singleton.mpr rfl, by decide⟩
    rw [List.append_cons, lines_append_newline, lines_append_newline, hreturn.lines_append]

theorem BlankEdits.lines_eq (h : BlankEdits text text') : lines text' = lines text := by
  induction h with
  | refl => rfl
  | tail _ hedit ih => exact hedit.lines_eq.trans ih

/-! ## Reports -/

/-- An edited output is read as the one that was edited: the same report, or the same error. -/
theorem read_of_blankEdits {output output' : String}
    (h : BlankEdits output.toList output'.toList) (beginning : String) :
    read output' beginning = read output beginning := by
  rw [read, read, h.lines_eq]

/-- A tab behind a value, carriage returns, a line that is blank but for one, and an ideographic space
behind a name: what was refused for its second line still is. -/
theorem read_of_blankEdits_refused :
    BlankEdits "S\t1\nF\nG".toList "S\t1\t\r\n\r\nF\u3000\nG".toList ∧
      read "S\t1\t\r\n\r\nF\u3000\nG" "S" = .error (.badLine "F") := by
  have htab : Blanks ['\t'] := ⟨List.forall_mem_singleton.mpr rfl, by decide⟩
  have hreturn : Blanks ['\r'] := ⟨List.forall_mem_singleton.mpr rfl, by decide⟩
  have hspace : Blanks ['\u3000'] := ⟨List.forall_mem_singleton.mpr rfl, by decide⟩
  have hvalue := @BlankEdit.trailing ['S', '\t', '1'] _ ['\n', 'F', '\n', 'G'] (.inr rfl) htab
  have hended := @BlankEdit.carriageReturn ['S', '\t', '1', '\t'] ['F', '\n', 'G']
  have hline := @BlankEdit.lineBefore ['S', '\t', '1', '\t', '\r', '\n'] _ ['F', '\n', 'G']
    (.inr rfl) hreturn
  have hname := @BlankEdit.trailing ['S', '\t', '1', '\t', '\r', '\n', '\r', '\n', 'F'] _
    ['\n', 'G'] (.inr rfl) hspace
  have hedits : BlankEdits "S\t1\nF\nG".toList "S\t1\t\r\n\r\nF\u3000\nG".toList :=
    .tail (.tail (.tail (.single hvalue) hended) hline) hname
  have hread : read "S\t1\nF\nG" "S" = .error (.badLine "F") := rfl
  exact ⟨hedits, (read_of_blankEdits hedits "S").trans hread⟩

end CorpusAnnotator.Evaluation.Report
