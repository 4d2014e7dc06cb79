import CorpusAnnotator.Proofs.Evaluation.LastLine
import CorpusAnnotator.Proofs.Json.ReadBack
import CorpusAnnotator.Proofs.Summary.Writing
import CorpusAnnotator.Summary.Reader

/-! Reports in the summary of a run. Every score that is finite stands there as a number, and every
other as null; so a report can be loaded back exactly if all its scores are finite. -/
namespace CorpusAnnotator

open Evaluation (Report Scores Sorted)
open Json (Node Symbol Value fieldNodes numeral? symbolsOf)
open Number (Binary64)
open Results

variable {x y : Binary64} {node : Node} {name : String} {entries : List (String × Binary64)}
  {s : Scores} {r : Report}

/-! ## Nodes -/

/-- The node that the names of fields lead to. -/
def Json.Node.at? : Node → List String → Option Node
  | node, [] => some node
  | .object fields _, name :: path =>
    (fields.lookup (symbolsOf name)).bind fun node => node.at? path
  | _, _ :: _ => none

/-- How a floating-point number stands in a document: as the number that is its text, or as null. -/
inductive Json.Shows : Binary64 → Node → Prop
  | number {x : Binary64} {n : Json.Numeral} (hx : x.isFinite = true)
      (htext : n.text = (Json.floatText x).toList) : Shows x (.number n)
  | null {x : Binary64} (hx : x.isFinite = false) : Shows x .null

namespace Json

theorem textOf_symbolsOf (s : String) : textOf (symbolsOf s) = .ok s := by
  refine map_eq_ok_iff.mpr ⟨s.toList, mapM_eq_ok_iff.mpr ?_, String.ofList_toList⟩
  rw [symbolsOf, List.map_map]
  rfl

theorem fieldNodes_eq_map (fields : List (String × Value)) :
    fieldNodes fields = fields.map fun field => (symbolsOf field.1, field.2.node) := by
  induction fields with
  | nil => rfl
  | cons field fields ih => rw [fieldNodes, ih, List.map_cons]

theorem symbolsOf_injective : Function.Injective symbolsOf := by
  intro s t h
  exact String.toList_inj.mp (List.map_injective_iff.mpr (fun _ _ => Symbol.char.inj) h)

/-- The fields of an object that is printed are found by their names. -/
theorem at?_object (fields : List (String × Value)) (name : String) (path : List String) :
    (Value.object fields).node.at? (name :: path) =
      (fields.lookup name).bind fun value => value.node.at? path := by
  have hlookup : (fields.map fun field => (symbolsOf field.1, field.2.node)).lookup
      (symbolsOf name) = (fields.lookup name).map Value.node := by
    induction fields with
    | nil => rfl
    | cons field fields ih =>
      obtain ⟨other, value⟩ := field
      by_cases h : name = other
      · subst h
        rw [List.map_cons, List.lookup_cons_self, List.lookup_cons_self, Option.map_some]
      · have h' : symbolsOf name ≠ symbolsOf other := fun heq => h (symbolsOf_injective heq)
        rw [List.map_cons, List.lookup_cons, beq_eq_false_iff_ne.mpr h', ih, List.lookup_cons,
          beq_eq_false_iff_ne.mpr h]
  rw [Value.node, Node.at?, fieldNodes_eq_map, hlookup, Option.bind_map]
  rfl

theorem shows_node (x : Binary64) : Shows x (Value.float x).node := by
  cases x with
  | nan => exact .null rfl
  | infinite negative => exact .null rfl
  | finite negative m e => exact .number rfl (toList_floatText_of_some rfl).symm

theorem toFloat_of_finite (hx : x.InFormat) (h : x.isFinite = true) :
    ∃ y, (Value.float x).node.toFloat = .ok y := by
  cases x with
  | nan => cases h
  | infinite negative => cases h
  | finite negative m e =>
    obtain ⟨q, hq⟩ := exists_value?_of_numeral? hx rfl
    refine ⟨q.toFloat, ?_⟩
    simp only [Value.node, numeral?, Node.toFloat, quantityOf, hq, map_ok]

theorem toFloat_of_not_finite (h : x.isFinite = false) :
    (Value.float x).node.toFloat = .error .mismatch := by
  cases x with
  | nan => rfl
  | infinite negative => rfl
  | finite negative m e => cases h

theorem foldFields_cons {α : Type} (step : α → String → Node → Except Error α) (a : α)
    (name : String) (value : Node) (rest : List (List Symbol × Node)) :
    Node.foldFields step a ((symbolsOf name, value) :: rest) =
      step a name value >>= fun a => Node.foldFields step a rest := by
  rw [Node.foldFields, textOf_symbolsOf, ok_bind]

end Json

/-! ## Scores -/

namespace RunSummary

/-- Put a score with the others. -/
def addScore (s : Scores) (name : String) (value : Node) : Except Json.Error Scores := do
  return s.put name (← value.toFloat)

theorem readScores_object (fields : List (List Symbol × Node)) :
    readScores (.object fields .closed) = Node.foldFields addScore Scores.empty fields := by
  have hread : readScores (.object fields .closed) =
      Node.foldFields addScore Scores.empty fields >>= fun scores => pure scores := rfl
  rw [hread, bind_pure]

/-- The fields that scores are printed as. -/
def scoreFields (entries : List (String × Binary64)) : List (List Symbol × Node) :=
  entries.map fun e => (symbolsOf e.1, (Value.float e.2).node)

theorem putEntry_of_lt (h : ∀ e ∈ entries, e.1 < name) (x : Binary64) :
    Scores.putEntry name x entries = entries ++ [(name, x)] := by
  induction entries with
  | nil => rfl
  | cons e entries ih =>
    have hlt := h e List.mem_cons_self
    rw [Scores.putEntry, if_neg (Std.ne_of_lt hlt).symm, if_neg (String.lt_asymm hlt),
      ih fun e he => h e (List.mem_cons_of_mem _ he), List.cons_append]

/-- Scores that can be read are put behind each other in the order in which they stand. -/
theorem foldFields_scores (hsorted : ((s.entries ++ entries).map Prod.fst).Pairwise (· < ·))
    (hreads : ∀ e ∈ entries, ∃ y, (Value.float e.2).node.toFloat = .ok y) :
    ∃ loaded, Node.foldFields addScore s (scoreFields entries) = .ok ⟨s.entries ++ loaded⟩ ∧
      List.Forall₂ (fun e e' => e'.1 = e.1 ∧ (Value.float e.2).node.toFloat = .ok e'.2) entries
        loaded := by
  induction entries generalizing s with
  | nil => exact ⟨[], by rw [List.append_nil]; rfl, .nil⟩
  | cons e entries ih =>
    obtain ⟨name, x⟩ := e
    obtain ⟨⟨y, hy⟩, hreads⟩ := List.forall_mem_cons.mp hreads
    have hlt : ∀ e ∈ s.entries, e.1 < name := by
      intro e he
      rw [List.map_append, List.pairwise_append] at hsorted
      exact hsorted.2.2 e.1 (List.mem_map_of_mem he) name List.mem_cons_self
    have hput : addScore s name (Value.float x).node = .ok ⟨s.entries ++ [(name, y)]⟩ := by
      rw [addScore, hy, ← putEntry_of_lt hlt]
      rfl
    have hnames : ((s.entries ++ [(name, y)] ++ entries).map Prod.fst).Pairwise (· < ·) := by
      simpa using hsorted
    obtain ⟨loaded, hfold, hloaded⟩ := ih (s := ⟨s.entries ++ [(name, y)]⟩) hnames hreads
    refine ⟨(name, y) :: loaded, ?_, .cons ⟨rfl, hy⟩ hloaded⟩
    rw [List.append_assoc] at hfold
    rw [scoreFields, List.map_cons, Json.foldFields_cons, hput, ok_bind]
    exact hfold

theorem foldFields_scores_of_not_finite (hformat : ∀ e ∈ entries, e.2.InFormat)
    (h : ∃ e ∈ entries, e.2.isFinite = false) :
    Node.foldFields addScore s (scoreFields entries) = .error .mismatch := by
  induction entries generalizing s with
  | nil =>
    obtain ⟨e, he, -⟩ := h
    cases he
  | cons e entries ih =>
    obtain ⟨name, x⟩ := e
    obtain ⟨hx, hformat⟩ := List.forall_mem_cons.mp hformat
    rw [scoreFields, List.map_cons, Json.foldFields_cons, addScore]
    cases hfinite : x.isFinite with
    | false =>
      rw [Json.toFloat_of_not_finite hfinite]
      rfl
    | true =>
      obtain ⟨y, hy⟩ := Json.toFloat_of_finite hx hfinite
      rw [hy]
      refine ih hformat ?_
      obtain ⟨e, he, hnot⟩ := h
      rcases List.mem_cons.mp he with rfl | he
      · rw [hfinite] at hnot
        cases hnot
      · exact ⟨e, he, hnot⟩

/-! ## Reports -/

theorem node_reportValue (r : Report) : (reportValue r).node =
    .object [(symbolsOf "metrics", .object (scoreFields r.scores.entries) .closed),
      (symbolsOf "overall_metric", .text (symbolsOf r.headline)),
      (symbolsOf "overall", (Value.float r.overall).node)] .closed := by
  simp only [reportValue, Value.node, Json.fieldNodes_eq_map, List.map_cons, List.map_nil,
    List.map_map]
  rfl

/-- A report is loaded field by field. -/
theorem readReport_node (r : Report) : readReport (reportValue r).node = do
    let scores ← Node.foldFields addScore Scores.empty (scoreFields r.scores.entries)
    let overall ← (Value.float r.overall).node.toFloat
    return ⟨scores, r.headline, overall⟩ := by
  rw [node_reportValue]
  simp only [readReport, Node.record, Json.foldFields_cons, ReportDraft.field, Node.once,
    readScores_object, Node.toText, Json.textOf_symbolsOf]
  cases Node.foldFields addScore Scores.empty (scoreFields r.scores.entries) with
  | error e => rfl
  | ok scores =>
    cases (Value.float r.overall).node.toFloat with
    | error e => simp
    | ok overall => simp [Node.foldFields, Json.Ending.needed, Json.required]

variable {output beginning : String}

/-- All that a report has read is in the format, and its headline is among its scores. -/
theorem inFormat_of_read (h : Report.read output beginning = .ok r) :
    (∀ e ∈ r.scores.entries, e.2.InFormat) ∧ (r.headline, r.overall) ∈ r.scores.entries := by
  constructor
  · intro e he
    obtain ⟨-, before, line, after, -, ⟨text, -, -, -, hfloat⟩, -⟩ :=
      (Report.mem_scores_iff h e.1 e.2).mp he
    exact Number.inFormat_of_readFloat hfloat
  · obtain ⟨entries, hls, hheadline, -⟩ := Report.read_eq_ok_iff.mp h
    exact (Report.mem_scores_iff h r.headline r.overall).mpr
      ((Report.headline?_eq_some_iff hls).mp hheadline).named

theorem pairwise_of_read (h : Report.read output beginning = .ok r) :
    (r.scores.entries.map Prod.fst).Pairwise (· < ·) := by
  obtain ⟨entries, -, -, hscores⟩ := Report.read_eq_ok_iff.mp h
  rw [hscores]
  exact List.pairwise_map.mpr (Scores.sorted_ofList entries)

/-- Where the report stands in the summary of a run. -/
theorem at?_report {summary : RunSummary} (h : summary.evaluation = some (.completed r)) :
    summary.toValue.node.at? ["evaluation", "report"] = some (reportValue r).node := by
  have hevaluation : optional outcomeValue summary.evaluation =
      .object [("status", .text "completed"), ("report", reportValue r)] := by
    rw [h]
    rfl
  rw [toValue, Json.at?_object, hevaluation]
  simp [List.lookup_cons, Json.at?_object, Node.at?]

/-- The scores of a report and their fields stand in the same order. -/
theorem forall₂_scoreFields (entries : List (String × Binary64)) :
    List.Forall₂ (fun e field => field.1 = symbolsOf e.1 ∧ Json.Shows e.2 field.2) entries
      (scoreFields entries) :=
  List.forall₂_map_right_iff.mpr
    (List.forall₂_same.mpr fun e _ => ⟨rfl, Json.shows_node e.2⟩)

/-- A report that was read is loaded score by score if all of them are finite. -/
theorem readReport_of_finite (h : Report.read output beginning = .ok r)
    (hfinite : ∀ e ∈ r.scores.entries, e.2.isFinite = true) :
    ∃ loaded, readReport (reportValue r).node = .ok loaded ∧
      List.Forall₂ (fun field e => field.1 = symbolsOf e.1 ∧ field.2.toFloat = .ok e.2)
        (scoreFields r.scores.entries) loaded.scores.entries ∧
      loaded.headline = r.headline ∧
      (Value.float r.overall).node.toFloat = .ok loaded.overall := by
  obtain ⟨hformat, hheadline⟩ := inFormat_of_read h
  have hreads : ∀ e ∈ r.scores.entries, ∃ y, (Value.float e.2).node.toFloat = .ok y :=
    fun e he => Json.toFloat_of_finite (hformat e he) (hfinite e he)
  obtain ⟨entries, hscores, hentries⟩ :=
    foldFields_scores (s := Scores.empty) (pairwise_of_read h) hreads
  obtain ⟨overall, hoverall⟩ := hreads _ hheadline
  refine ⟨⟨⟨entries⟩, r.headline, overall⟩, ?_, ?_, rfl, hoverall⟩
  · rw [readReport_node, hscores, ok_bind, hoverall]
    rfl
  · exact List.forall₂_map_left_iff.mpr
      (hentries.imp fun e e' ⟨hname, hvalue⟩ => ⟨congrArg symbolsOf hname.symm, hvalue⟩)

theorem readReport_of_not_finite (h : Report.read output beginning = .ok r)
    (hnot : ∃ e ∈ r.scores.entries, e.2.isFinite = false) :
    readReport (reportValue r).node = .error .mismatch := by
  rw [readReport_node, foldFields_scores_of_not_finite (inFormat_of_read h).1 hnot]
  rfl

/-- A report that was read can be loaded exactly if all of its scores are finite. -/
theorem exists_readReport_iff (h : Report.read output beginning = .ok r) :
    (∃ loaded, readReport (reportValue r).node = .ok loaded) ↔
      ∀ e ∈ r.scores.entries, e.2.isFinite = true := by
  constructor
  · rintro ⟨loaded, hloaded⟩ e he
    by_contra hnot
    rw [readReport_of_not_finite h ⟨e, he, Bool.eq_false_iff.mpr hnot⟩] at hloaded
    cases hloaded
  · intro hfinite
    obtain ⟨loaded, hloaded, -⟩ := readReport_of_finite h hfinite
    exact ⟨loaded, hloaded⟩

/-- The summary that is written of an evaluated run has the report with its scores as fields in their
order, each a number if it is finite and otherwise null, and so with its headline. The report is
loaded back exactly if all its scores are finite, and then each is what its number stands for. -/
theorem report_loads_iff_finite {summary : RunSummary}
    (hread : Report.read output beginning = .ok r)
    (hevaluation : summary.evaluation = some (.completed r)) :
    (∀ tree path tree', summary.write tree path = .ok tree' →
      tree'.read path = .ok (Text.Utf8.encode summary.toText.toList)) ∧
    ∃ report metrics overall, (Json.Document.read summary.toText).rest = [] ∧
      (Json.Document.read summary.toText).root.at? ["evaluation", "report"] = some report ∧
      report.at? ["metrics"] = some (.object metrics .closed) ∧
      report.at? ["overall"] = some overall ∧
      List.Forall₂ (fun e field => field.1 = symbolsOf e.1 ∧ Json.Shows e.2 field.2)
        r.scores.entries metrics ∧
      Json.Shows r.overall overall ∧
      ((∃ loaded, readReport report = .ok loaded) ↔
        ∀ e ∈ r.scores.entries, e.2.isFinite = true) ∧
      ∀ loaded, readReport report = .ok loaded →
        List.Forall₂ (fun field e => field.1 = symbolsOf e.1 ∧ field.2.toFloat = .ok e.2)
          metrics loaded.scores.entries ∧
        loaded.headline = r.headline ∧ overall.toFloat = .ok loaded.overall := by
  have hdocument : Json.Document.read summary.toText = ⟨summary.toValue.node, []⟩ :=
    Json.read_toText summary.toValue
  refine ⟨fun tree path tree' hwrite => read_write hwrite, (reportValue r).node,
    scoreFields r.scores.entries, (Value.float r.overall).node, ?_, ?_, ?_, ?_,
    forall₂_scoreFields r.scores.entries, Json.shows_node r.overall,
    exists_readReport_iff hread, ?_⟩
  · rw [hdocument]
  · rw [hdocument]
    exact at?_report hevaluation
  · rw [node_reportValue]
    rfl
  · rw [node_reportValue]
    rfl
  · intro loaded hloaded
    have hfinite := (exists_readReport_iff hread).mp ⟨loaded, hloaded⟩
    obtain ⟨loaded', hloaded', hrest⟩ := readReport_of_finite hread hfinite
    rw [hloaded] at hloaded'
    cases hloaded'
    exact hrest

/-- Two scores, one of them so large that it is printed with an exponent. -/
theorem report_loads_two_scores :
    let score : Binary64 := .finite false 5981343255101440 (-47)
    let large : Binary64 := .finite false 5960464477539062 27
    let r : Report := ⟨⟨[("OTHER", large), ("SLOT_F1", score)]⟩, "SLOT_F1", score⟩
    let summary : RunSummary :=
      ⟨⟨⟨2024, 3, 1⟩, 45296, 0⟩, "c.zip", 10, 2, .zero, none, some (.completed r)⟩
    Report.read "OTHER\t8e23\nSLOT_F1\t42.5" "SLOT_F1" = .ok r ∧
      summary.evaluation = some (.completed r) ∧
      ∃ report loaded,
        (Json.Document.read summary.toText).root.at? ["evaluation", "report"] = some report ∧
        readReport report = .ok loaded := by
  intro score large r summary
  have hread : Report.read "OTHER\t8e23\nSLOT_F1\t42.5" "SLOT_F1" = .ok r := rfl
  refine ⟨hread, rfl, ?_⟩
  obtain ⟨-, report, metrics, overall, -, hreport, -, -, -, -, hloads, -⟩ :=
    report_loads_iff_finite hread (rfl : summary.evaluation = some (.completed r))
  obtain ⟨loaded, hloaded⟩ := hloads.mpr (by decide)
  exact ⟨report, loaded, hreport, hloaded⟩

/-- A score that is no number is accepted, and stands in the summary as null; the report that holds
it cannot be loaded. -/
theorem report_of_nan_not_loaded :
    let r : Report := ⟨⟨[("SLOT_F1", .nan)]⟩, "SLOT_F1", .nan⟩
    let summary : RunSummary :=
      ⟨⟨⟨2024, 3, 1⟩, 45296, 0⟩, "c.zip", 10, 2, .zero, none, some (.completed r)⟩
    Report.read "SLOT_F1\tnan" "SLOT_F1" = .ok r ∧
      ∃ report, (Json.Document.read summary.toText).root.at? ["evaluation", "report"] = some report ∧
        report.at? ["metrics", "SLOT_F1"] = some .null ∧ report.at? ["overall"] = some .null ∧
        readReport report = .error .mismatch := by
  intro r summary
  have hread : Report.read "SLOT_F1\tnan" "SLOT_F1" = .ok r := rfl
  refine ⟨hread, (reportValue r).node, ?_, ?_, ?_, ?_⟩
  · rw [toText, Json.read_toText]
    exact at?_report rfl
  · rw [node_reportValue]
    rfl
  · rw [node_reportValue]
    rfl
  · exact readReport_of_not_finite hread ⟨("SLOT_F1", .nan), List.mem_singleton_self _, rfl⟩

end RunSummary

end CorpusAnnotator
