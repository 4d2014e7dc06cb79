import CorpusAnnotator.Json.Decoder
import CorpusAnnotator.Summary.Basic

/-! Reading the summary of a run back. Fields may come in any order, and fields of other names are
passed over; none may come twice. -/
namespace CorpusAnnotator.RunSummary

open Evaluation (Report Scores Outcome)
open Json (Node Error required)
open Number (Binary64)

/-! ## Reports -/

/-- The fields of a report that have been read. -/
structure ReportDraft where
  scores : Option Scores
  headline : Option String
  overall : Option Binary64

/-- Scores by name; of a name that comes again the last counts. -/
def readScores : Node → Except Error Scores
  | .object fields ending => do
    let add (s : Scores) (name : String) (value : Node) : Except Error Scores := do
      return s.put name (← value.toFloat)
    let scores ← Node.foldFields add Scores.empty fields
    ending.needed
    return scores
  | node => .error node.unwanted

def ReportDraft.field (d : ReportDraft) (name : String) (value : Node) :
    Except Error ReportDraft := do
  if name = "metrics" then return { d with scores := ← Node.once d.scores readScores value }
  else if name = "overall_metric" then
    return { d with headline := ← Node.once d.headline Node.toText value }
  else if name = "overall" then
    return { d with overall := ← Node.once d.overall Node.toFloat value }
  else
    value.pass
    return d

def reportNames : List String := ["metrics", "overall_metric", "overall"]

def readReport (node : Node) : Except Error Report := do
  let d ← node.record reportNames ReportDraft.field ⟨none, none, none⟩
  return ⟨← required d.scores, ← required d.headline, ← required d.overall⟩

/-! ## Outcomes -/

/-- The kinds of outcome. -/
inductive Status where
  | completed
  | failed
  deriving Repr, DecidableEq

def readStatus (node : Node) : Except Error Status := do
  let name ← node.toText
  if name = "completed" then return .completed
  else if name = "failed" then return .failed
  else throw .mismatch

/-- The fields of a failed outcome that have been read. -/
structure FailureDraft where
  code : Option (Option Int)
  output : Option String

def FailureDraft.field (d : FailureDraft) (name : String) (value : Node) :
    Except Error FailureDraft := do
  if name = "exit_code" then
    return { d with code := ← Node.once d.code (Node.toOption Node.toInt32) value }
  else if name = "output" then
    return { d with output := ← Node.once d.output Node.toText value }
  else
    value.pass
    return d

def readFailed (node : Node) : Except Error Outcome := do
  let d ← node.record ["exit_code", "output"] FailureDraft.field ⟨none, none⟩
  return .failed (d.code.getD none) (← required d.output)

def CompletionDraft.field (d : Option Report) (name : String) (value : Node) :
    Except Error (Option Report) := do
  if name = "report" then return ← Node.once d readReport value
  else
    value.pass
    return d

def readCompleted (node : Node) : Except Error Outcome := do
  let d ← node.record ["report"] CompletionDraft.field none
  return .completed (← required d)

/-- The outcome of a kind, from what stands beside the kind. All of that has been gone through, so
nothing but a mismatch can come up. -/
def readContent (status : Status) (node : Node) : Except Error Outcome :=
  let outcome :=
    match status with
    | .completed => readCompleted node
    | .failed => readFailed node
  outcome.mapError fun _ => .mismatch

/-- Go through the fields of an outcome for its kind; the others are kept. -/
def splitFields (levels : Nat) (status : Option Status) :
    List (List Json.Symbol × Node) → Except Error (Option Status × List (List Json.Symbol × Node))
  | [] => .ok (status, [])
  | (name, value) :: rest => do
    if (← Json.textOf name) = "status" then
      splitFields levels (some (← Node.once status readStatus value)) rest
    else
      value.need levels
      let (status, fields) ← splitFields levels status rest
      return (status, (name, value) :: fields)

/-- An outcome: an object that tells its kind in a field, or a list that tells it first. Lists and
objects may stand in each other `levels` deep inside it. -/
def readOutcome (levels : Nat) : Node → Except Error Outcome
  | .object fields ending => do
    let (status, fields) ← splitFields levels none fields
    ending.needed
    readContent (← required status) (.object fields .closed)
  | .list [] ending => do
    ending.needed
    throw .mismatch
  | .list (item :: items) ending => do
    let status ← readStatus item
    Node.needItems levels items
    ending.needed
    readContent status (.list items .closed)
  | node => .error node.unwanted

/-! ## Summaries -/

/-- The number of lists and objects that may stand in each other. -/
def maxLevels : Nat := 127

/-- The fields of a summary that have been read. -/
structure Draft where
  timestamp : Option Time.Timestamp
  corpus : Option String
  documents : Option Nat
  batches : Option Nat
  seconds : Option Binary64
  output : Option (Option String)
  evaluation : Option (Option Outcome)

def Draft.empty : Draft := ⟨none, none, none, none, none, none, none⟩

def readTimestamp (node : Node) : Except Error Time.Timestamp := do
  match Time.Timestamp.read? (← node.toText) with
  | some t => return t
  | none => throw .mismatch

def Draft.field (d : Draft) (name : String) (value : Node) : Except Error Draft := do
  if name = "timestamp" then
    return { d with timestamp := ← Node.once d.timestamp readTimestamp value }
  else if name = "corpus" then return { d with corpus := ← Node.once d.corpus Node.toText value }
  else if name = "documents" then
    return { d with documents := ← Node.once d.documents Node.toNat value }
  else if name = "batches" then
    return { d with batches := ← Node.once d.batches Node.toNat value }
  else if name = "annotation_secs" then
    return { d with seconds := ← Node.once d.seconds Node.toFloat value }
  else if name = "output" then
    return { d with output := ← Node.once d.output (Node.toOption Node.toText) value }
  else if name = "evaluation" then
    let read := Node.toOption (readOutcome (maxLevels - 2))
    return { d with evaluation := ← Node.once d.evaluation read value }
  else
    value.pass
    return d

def fieldNames : List String :=
  ["timestamp", "corpus", "documents", "batches", "annotation_secs", "output", "evaluation"]

/-- A summary from its document. -/
def ofNode (node : Node) : Except Error RunSummary := do
  let d ← node.record fieldNames Draft.field .empty
  return {
    timestamp := ← required d.timestamp
    corpus := ← required d.corpus
    documents := ← required d.documents
    batches := ← required d.batches
    seconds := ← required d.seconds
    output := d.output.getD none
    evaluation := d.evaluation.getD none }

def read (text : String) : Except Error RunSummary :=
  Json.decode ofNode text

/-- Null, or an outcome that stands alone. -/
def readEvaluation (text : String) : Except Error (Option Outcome) :=
  Json.decode (Node.toOption (readOutcome (maxLevels - 1))) text

end CorpusAnnotator.RunSummary
