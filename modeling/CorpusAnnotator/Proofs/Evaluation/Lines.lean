import CorpusAnnotator.Evaluation.Report
import CorpusAnnotator.Proofs.Results
import CorpusAnnotator.Proofs.Text.Split

/-! What one line of an evaluator's output says, and what is wrong with a line that says nothing.
The lines of an output are those of its parts wherever it is cut at the end of a line. -/
namespace CorpusAnnotator.Evaluation.Report

open Number (Binary64)
open Results

variable {line text name rest : List Char}

/-! ## Lines -/

theorem lines_append_newline (text rest : List Char) :
    lines (text ++ '\n' :: rest) = lines text ++ lines rest := by
  simp only [lines, Text.split_append_separator, List.map_append, List.filter_append]

/-- A text without the end of a line is one line, unless it is blank. -/
theorem lines_of_notMem (h : '\n' ∉ text) :
    lines text = [Text.trimEnd text].filter (!·.isEmpty) := by
  rw [lines, Text.split_of_notMem h]
  rfl

theorem lines_of_blank (h : '\n' ∉ text) (hblank : ∀ c ∈ text, Text.isBlank c = true) :
    lines text = [] := by
  rw [lines_of_notMem h, Text.trimEnd_eq_nil_iff.mpr hblank]
  rfl

theorem lines_of_trimEnd_ne_nil (h : '\n' ∉ text) (hne : Text.trimEnd text ≠ []) :
    lines text = [Text.trimEnd text] := by
  rw [lines_of_notMem h]
  cases hline : Text.trimEnd text with
  | nil => exact absurd hline hne
  | cons c cs => rfl

/-- No line is empty or ends with a blank. -/
theorem exists_last_of_mem_lines (h : line ∈ lines text) :
    ∃ front c, line = front ++ [c] ∧ Text.isBlank c = false := by
  obtain ⟨hline, hne⟩ := List.mem_filter.mp h
  obtain ⟨raw, -, hraw⟩ := List.mem_map.mp hline
  rcases List.eq_nil_or_concat line with rfl | ⟨front, c, rfl⟩
  · cases hne
  · exact ⟨front, c, List.concat_eq_append, Text.not_isBlank_of_trimEnd
      (hraw.trans List.concat_eq_append)⟩

/-! ## What a line says -/

/-- A line says that a name has a value: the name, the one tab of the line, and a number, which may
have blanks around it. -/
def Says (line : List Char) (name : String) (value : Binary64) : Prop :=
  ∃ text, line = name.toList ++ '\t' :: text ∧ '\t' ∉ name.toList ∧ '\t' ∉ text ∧
    Number.readFloat (Text.trim text) = .ok value

def WellFormed (line : List Char) : Prop :=
  ∃ name value, Says line name value

/-- What is wrong with a line. -/
inductive Fault (line : List Char) : ReportError → Prop where
  | tabs : line.count '\t' ≠ 1 → Fault line (.badLine (String.ofList line))
  | number {name text : List Char} : line = name ++ '\t' :: text → '\t' ∉ name → '\t' ∉ text →
      (∀ value, Number.readFloat (Text.trim text) ≠ .ok value) →
      Fault line (.badValue (String.ofList line) .malformed)

theorem readLine_of_pair (h : line = name ++ '\t' :: text) (hname : '\t' ∉ name)
    (htext : '\t' ∉ text) :
    readLine line =
      ((Number.readFloat (Text.trim text)).map (String.ofList name, ·)).mapError
        (.badValue (String.ofList line)) := by
  rw [readLine, Text.split_eq_pair_iff.mpr ⟨h, hname, htext⟩]
  simp only
  cases Number.readFloat (Text.trim text) with
  | ok x => rfl
  | error e => rfl

theorem readLine_of_count (h : line.count '\t' ≠ 1) :
    readLine line = .error (.badLine (String.ofList line)) := by
  unfold readLine
  split
  · next name value hsplit =>
    have hlength := Text.length_split '\t' line
    rw [hsplit] at hlength
    exact absurd (Nat.succ.inj hlength).symm h
  · rfl

/-- A line with one tab is a name and a text. -/
theorem exists_pair_of_count (h : line.count '\t' = 1) :
    ∃ name text, line = name ++ '\t' :: text ∧ '\t' ∉ name ∧ '\t' ∉ text := by
  have hlength := Text.length_split '\t' line
  obtain ⟨name, parts, hsplit⟩ := Text.exists_split_eq '\t' line
  rw [hsplit, h] at hlength
  obtain ⟨text, rfl⟩ := List.length_eq_one_iff.mp (Nat.succ.inj hlength)
  exact ⟨name, text, Text.split_eq_pair_iff.mp hsplit⟩

theorem readLine_eq_ok_iff {name : String} {value : Binary64} :
    readLine line = .ok (name, value) ↔ Says line name value := by
  constructor
  · intro h
    by_cases hcount : line.count '\t' = 1
    · obtain ⟨name', text, hline, hname, htext⟩ := exists_pair_of_count hcount
      rw [readLine_of_pair hline hname htext, mapError_eq_ok_iff] at h
      obtain ⟨x, hvalue, hpair⟩ := map_eq_ok_iff.mp h
      cases hpair
      rw [← String.toList_ofList (l := name')] at hline hname
      exact ⟨text, hline, hname, htext, hvalue⟩
    · rw [readLine_of_count hcount] at h
      cases h
  · rintro ⟨text, hline, hname, htext, hvalue⟩
    rw [readLine_of_pair hline hname htext, hvalue, map_ok, mapError_ok, String.ofList_toList]

theorem wellFormed_iff : WellFormed line ↔ ∃ entry, readLine line = .ok entry := by
  constructor
  · rintro ⟨name, value, h⟩
    exact ⟨(name, value), readLine_eq_ok_iff.mpr h⟩
  · rintro ⟨⟨name, value⟩, h⟩
    exact ⟨name, value, readLine_eq_ok_iff.mp h⟩

/-! ## What is wrong with a line -/

theorem readFloat_eq_error {e : Number.FloatError} (h : Number.readFloat text = .error e)
    (hne : text ≠ []) : e = .malformed := by
  unfold Number.readFloat at h
  rw [if_neg (by rwa [List.isEmpty_iff])] at h
  simp only at h
  split at h
  · cases h
  · split at h
    · cases h
    · split at h
      · cases h
      · cases h
        rfl

/-- Behind the tab of a line stands something that is not blank. -/
theorem trim_ne_nil (h : line ∈ lines rest) (hline : line = name ++ '\t' :: text) :
    Text.trim text ≠ [] := by
  obtain ⟨front, c, hlast, hc⟩ := exists_last_of_mem_lines h
  intro htrim
  have hblank := Text.trim_eq_nil_iff.mp htrim
  have hmem : c ∈ '\t' :: text := by
    have hend := congrArg List.getLast? (hlast.symm.trans hline)
    rw [List.getLast?_concat, List.getLast?_append, List.getLast?_cons, Option.some_or,
      ← List.getLast?_cons] at hend
    exact List.mem_of_getLast? hend.symm
  rcases List.mem_cons.mp hmem with rfl | hmem
  · exact absurd hc (by decide)
  · rw [hblank c hmem] at hc
    cases hc

/-- A line is refused for what is wrong with it. That nothing stands for the number is not told
apart from a missing tab. -/
theorem readLine_eq_error_iff (h : line ∈ lines text) {e : ReportError} :
    readLine line = .error e ↔ Fault line e := by
  constructor
  · intro hread
    by_cases hcount : line.count '\t' = 1
    · obtain ⟨name, number, hline, hname, hnumber⟩ := exists_pair_of_count hcount
      rw [readLine_of_pair hline hname hnumber] at hread
      cases hvalue : Number.readFloat (Text.trim number) with
      | ok x =>
        rw [hvalue] at hread
        cases hread
      | error e' =>
        rw [hvalue] at hread
        cases hread
        have hnone : ∀ x, Number.readFloat (Text.trim number) ≠ .ok x := by
          rw [hvalue]
          exact fun x hx => by cases hx
        rw [readFloat_eq_error hvalue (trim_ne_nil h hline)]
        exact .number hline hname hnumber hnone
    · rw [readLine_of_count hcount] at hread
      cases hread
      exact .tabs hcount
  · intro hfault
    cases hfault with
    | tabs hcount => exact readLine_of_count hcount
    | @number name number hline hname hnumber hvalue =>
      rw [readLine_of_pair hline hname hnumber]
      cases hread : Number.readFloat (Text.trim number) with
      | ok x => exact absurd hread (hvalue x)
      | error e =>
        rw [readFloat_eq_error hread (trim_ne_nil h hline)]
        rfl

end CorpusAnnotator.Evaluation.Report
