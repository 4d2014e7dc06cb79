import CorpusAnnotator.Evaluation.Evaluator
import CorpusAnnotator.Proofs.Evaluation.Lines

/-! The two streams of an evaluator are read one behind the other, without the end of a line between
them. So the line that the output leaves open and the first line of the errors are read as one,
which is the same as reading the streams apart just where one of the two has nothing to add. -/
namespace CorpusAnnotator.Evaluation

open Number (Binary64)

/-! ## The line at a seam -/

namespace Report

variable {text rest : List Char}

/-- The line that a text begins and does not end. -/
def openLine (text : List Char) : List Char :=
  (text.reverse.takeWhile (· != '\n')).reverse

/-- The lines that a text ends. -/
def closedLines (text : List Char) : List Char :=
  (text.reverse.dropWhile (· != '\n')).reverse

def firstLine (text : List Char) : List Char :=
  text.takeWhile (· != '\n')

def furtherLines (text : List Char) : List Char :=
  text.dropWhile (· != '\n')

theorem newline_notMem_takeWhile (text : List Char) : '\n' ∉ text.takeWhile (· != '\n') := by
  intro h
  have hne := List.all_eq_true.mp (List.all_takeWhile (l := text) (p := (· != '\n'))) '\n' h
  cases hne

theorem newline_notMem_openLine (text : List Char) : '\n' ∉ openLine text :=
  fun h => newline_notMem_takeWhile text.reverse (List.mem_reverse.mp h)

/-- What is dropped up to a newline starts with one. -/
theorem dropWhile_newline_cases (text : List Char) :
    text.dropWhile (· != '\n') = [] ∨ ∃ rest, text.dropWhile (· != '\n') = '\n' :: rest := by
  have hhead := List.head?_dropWhile_not (· != '\n') text
  cases hdrop : text.dropWhile (· != '\n') with
  | nil => exact .inl rfl
  | cons c rest =>
    rw [hdrop] at hhead
    have hc : c = '\n' := by simpa using hhead
    exact .inr ⟨rest, by rw [hc]⟩

theorem closedLines_cases (text : List Char) :
    closedLines text = [] ∨ ∃ front, closedLines text = front ++ ['\n'] := by
  unfold closedLines
  rcases dropWhile_newline_cases text.reverse with h | ⟨rest, h⟩
  · exact .inl (by rw [h]; rfl)
  · exact .inr ⟨rest.reverse, by rw [h, List.reverse_cons]⟩

theorem furtherLines_cases (text : List Char) :
    furtherLines text = [] ∨ ∃ rest, furtherLines text = '\n' :: rest :=
  dropWhile_newline_cases text

theorem closedLines_append_openLine (text : List Char) :
    closedLines text ++ openLine text = text := by
  rw [closedLines, openLine, ← List.reverse_append, List.takeWhile_append_dropWhile,
    List.reverse_reverse]

theorem firstLine_append_furtherLines (text : List Char) :
    firstLine text ++ furtherLines text = text :=
  List.takeWhile_append_dropWhile

theorem openLine_eq_nil_iff : openLine text = [] ↔ text = [] ∨ text.getLast? = some '\n' := by
  constructor
  · intro h
    have htext := closedLines_append_openLine text
    rw [h, List.append_nil] at htext
    rcases closedLines_cases text with hnil | ⟨front, hfront⟩
    · exact .inl (htext.symm.trans hnil)
    · exact .inr (List.getLast?_eq_some_iff.mpr ⟨front, htext.symm.trans hfront⟩)
  · rintro (rfl | h)
    · rfl
    · obtain ⟨front, rfl⟩ := List.getLast?_eq_some_iff.mp h
      rw [openLine, List.reverse_concat]
      rfl

theorem lines_append_of_closed (h : text = [] ∨ ∃ front, text = front ++ ['\n'])
    (rest : List Char) : lines (text ++ rest) = lines text ++ lines rest := by
  rcases h with rfl | ⟨front, rfl⟩
  · rfl
  · rw [List.append_assoc, List.singleton_append, lines_append_newline, lines_append_newline]
    exact congrArg (· ++ lines rest) (List.append_nil _).symm

theorem lines_append_of_further (h : rest = [] ∨ ∃ more, rest = '\n' :: more)
    (text : List Char) : lines (text ++ rest) = lines text ++ lines rest := by
  rcases h with rfl | ⟨more, rfl⟩
  · exact (congrArg lines (List.append_nil text)).trans (List.append_nil _).symm
  · rw [lines_append_newline]
    exact congrArg (lines text ++ ·) (lines_append_newline [] more).symm

theorem lines_eq_closed_append (text : List Char) :
    lines text = lines (closedLines text) ++ lines (openLine text) := by
  rw [← lines_append_of_closed (closedLines_cases text), closedLines_append_openLine]

theorem lines_eq_first_append (text : List Char) :
    lines text = lines (firstLine text) ++ lines (furtherLines text) := by
  rw [← lines_append_of_further (furtherLines_cases text), firstLine_append_furtherLines]

/-- Two texts put together have the lines of both, but for the one line that stands at the seam. -/
theorem lines_append (text rest : List Char) :
    lines (text ++ rest) = lines (closedLines text) ++
      (lines (openLine text ++ firstLine rest) ++ lines (furtherLines rest)) := by
  have hseam : text ++ rest =
      closedLines text ++ ((openLine text ++ firstLine rest) ++ furtherLines rest) := by
    rw [List.append_assoc, firstLine_append_furtherLines, ← List.append_assoc,
      closedLines_append_openLine]
  rw [hseam, lines_append_of_closed (closedLines_cases text),
    lines_append_of_further (furtherLines_cases rest)]

/-- Two texts within one line are the lines of both only if the first is empty or the second blank.
-/
theorem lines_append_eq_iff (htext : '\n' ∉ text) (hrest : '\n' ∉ rest) :
    lines (text ++ rest) = lines text ++ lines rest ↔
      text = [] ∨ ∀ c ∈ rest, Text.isBlank c = true := by
  have hboth : '\n' ∉ text ++ rest := fun h => (List.mem_append.mp h).elim htext hrest
  rw [← Text.trimEnd_eq_nil_iff]
  by_cases hblank : Text.trimEnd rest = []
  · have hblanks := Text.trimEnd_eq_nil_iff.mp hblank
    rw [lines_of_blank hrest hblanks, List.append_nil, lines_of_notMem hboth,
      lines_of_notMem htext, Text.trimEnd_append_of_blank hblanks]
    exact iff_of_true rfl (.inr hblank)
  · -- there is one line at the seam, and it begins with the whole first text
    have hline := Text.trimEnd_append hblank text
    have hne : Text.trimEnd (text ++ rest) ≠ [] := by
      rw [hline]
      exact List.append_ne_nil_of_right_ne_nil text hblank
    rw [lines_of_trimEnd_ne_nil hboth hne, lines_of_trimEnd_ne_nil hrest hblank, hline,
      or_iff_left hblank]
    constructor
    · intro h
      have hnil : lines text = [] :=
        List.eq_nil_of_length_eq_zero (by simpa using congrArg List.length h)
      rw [hnil] at h
      exact List.append_left_eq_self.mp (List.singleton_inj.mp h)
    · rintro rfl
      rfl

/-- The report that lines make. -/
def ofLines (beginning : String) (ls : List (List Char)) : Except ReportError Report := do
  ofEntries beginning (← ls.mapM readLine)

end Report

open Report

/-! ## Two streams -/

namespace Exit

/-- The lines of the output, and behind them the lines of the errors. -/
def lines (x : Exit) : List (List Char) :=
  Report.lines (Text.Utf8.decodeLenient x.output) ++ Report.lines (Text.Utf8.decodeLenient x.errors)

/-- The same lines, but what the output leaves open and the first line of the errors are one. -/
def joinedLines (x : Exit) : List (List Char) :=
  let output := Text.Utf8.decodeLenient x.output
  let errors := Text.Utf8.decodeLenient x.errors
  Report.lines (closedLines output) ++
    (Report.lines (openLine output ++ firstLine errors) ++ Report.lines (furtherLines errors))

/-- The output leaves no line open, or the errors add nothing to it. -/
def Seamless (x : Exit) : Prop :=
  let output := Text.Utf8.decodeLenient x.output
  output = [] ∨ output.getLast? = some '\n' ∨
    ∀ c ∈ firstLine (Text.Utf8.decodeLenient x.errors), Text.isBlank c = true

theorem lines_text (x : Exit) : Report.lines x.text.toList = x.joinedLines := by
  rw [text, String.toList_ofList, lines_append]
  rfl

theorem joinedLines_eq_iff (x : Exit) : x.joinedLines = x.lines ↔ x.Seamless := by
  have hseam := lines_append_eq_iff (newline_notMem_openLine (Text.Utf8.decodeLenient x.output))
    (newline_notMem_takeWhile (Text.Utf8.decodeLenient x.errors))
  rw [openLine_eq_nil_iff, or_assoc] at hseam
  unfold joinedLines lines Seamless
  rw [lines_eq_closed_append (Text.Utf8.decodeLenient x.output),
    lines_eq_first_append (Text.Utf8.decodeLenient x.errors), List.append_assoc,
    List.append_cancel_left_eq, ← List.append_assoc, List.append_cancel_right_eq]
  exact hseam

end Exit

namespace Evaluator

/-- What an evaluation comes to whose report has been read. -/
def reported (report : Except ReportError Report) : Except Error Outcome :=
  (report.map Outcome.completed).mapError Error.badReport

theorem outcome_of_isSuccess (e : Evaluator) {x : Exit} (h : x.isSuccess = true) :
    e.outcome (.ok x) = reported (Report.ofLines e.headline x.joinedLines) := by
  have hread : Report.read x.text e.headline = Report.ofLines e.headline x.joinedLines := by
    rw [← x.lines_text]
    rfl
  simp only [outcome, h, if_true, hread]
  cases Report.ofLines e.headline x.joinedLines with
  | ok report => rfl
  | error error => rfl

/-- What a successful evaluator wrote is read line by line, with the line that the output leaves
open and the first line of the errors taken as one. These are the lines of the two streams just
where the output ends with the end of a line, or the errors begin with a blank line or none; then
the outcome is that of the streams read apart. -/
theorem outcome_joins_streams (e : Evaluator) (x : Exit) (h : x.isSuccess = true) :
    e.outcome (.ok x) = reported (Report.ofLines e.headline x.joinedLines) ∧
    (x.joinedLines = x.lines ↔ x.Seamless) ∧
    (x.Seamless → e.outcome (.ok x) = reported (Report.ofLines e.headline x.lines)) := by
  refine ⟨e.outcome_of_isSuccess h, x.joinedLines_eq_iff, fun hseamless => ?_⟩
  rw [e.outcome_of_isSuccess h, x.joinedLines_eq_iff.mpr hseamless]

/-- An output that ends its last line, and errors that go on with a line of their own. -/
theorem outcome_joins_streams_closed :
    let e : Evaluator := ⟨"evaluate", "", "S"⟩
    let x : Exit := ⟨some 0, Text.Utf8.encode "S\t1\n".toList, Text.Utf8.encode "F\t2".toList⟩
    x.isSuccess = true ∧ x.Seamless ∧
      e.outcome (.ok x) = reported (Report.ofLines "S" x.lines) := by
  intro e x
  have hseamless : x.Seamless := .inr (.inl (by decide))
  exact ⟨rfl, hseamless, (e.outcome_joins_streams x rfl).2.2 hseamless⟩

/-- An output that leaves its last line open, and errors that begin with digits: a score is reported
which neither stream holds. -/
theorem outcome_of_open_output :
    let e : Evaluator := ⟨"evaluate", "", "SLOT_F1"⟩
    let x : Exit :=
      ⟨some 0, Text.Utf8.encode "SLOT_F1\t4".toList, Text.Utf8.encode "2.5\n".toList⟩
    let score : Binary64 := .finite false 5981343255101440 (-47)
    x.isSuccess = true ∧
      e.outcome (.ok x) = .ok (.completed ⟨⟨[("SLOT_F1", score)]⟩, "SLOT_F1", score⟩) ∧
      reported (Report.ofLines "SLOT_F1" x.lines) = .error (.badReport (.badLine "2.5")) := by
  exact ⟨rfl, rfl, rfl⟩

end Evaluator

end CorpusAnnotator.Evaluation
