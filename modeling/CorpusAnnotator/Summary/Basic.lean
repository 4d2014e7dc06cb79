import CorpusAnnotator.Evaluation.Evaluator
import CorpusAnnotator.Json.Printer
import CorpusAnnotator.Time.Timestamp

/-! The summary of a run, and the file that it is written to. -/
namespace CorpusAnnotator

/-- What a run has done: when it finished, the corpus, how many documents were annotated in how many
batches, the seconds that took, the archive if one was written, and the outcome of an evaluation if
there was one. -/
structure RunSummary where
  timestamp : Time.Timestamp
  corpus : String
  documents : Nat
  batches : Nat
  seconds : Number.Binary64
  output : Option String
  evaluation : Option Evaluation.Outcome
  deriving Repr, DecidableEq

namespace RunSummary

open Json (Value)

/-! ## As a document -/

def optional {α : Type} (value : α → Value) : Option α → Value
  | some a => value a
  | none => .null

def reportValue (r : Evaluation.Report) : Value :=
  .object [("metrics", .object (r.scores.entries.map fun (name, x) => (name, .float x))),
    ("overall_metric", .text r.headline), ("overall", .float r.overall)]

def outcomeValue : Evaluation.Outcome → Value
  | .completed report => .object [("status", .text "completed"), ("report", reportValue report)]
  | .failed code output =>
    .object [("status", .text "failed"), ("exit_code", optional .integer code),
      ("output", .text output)]

def toValue (s : RunSummary) : Value :=
  .object [("timestamp", .text s.timestamp.toString), ("corpus", .text s.corpus),
    ("documents", .integer s.documents), ("batches", .integer s.batches),
    ("annotation_secs", .float s.seconds), ("output", optional .text s.output),
    ("evaluation", optional outcomeValue s.evaluation)]

def toText (s : RunSummary) : String := s.toValue.toText

def toBytes (s : RunSummary) : List UInt8 := Text.Utf8.encode s.toText.toList

/-! ## As a file -/

inductive WriteFault where
  | unwritable (path : String) (error : Files.SystemError)
  deriving Repr, DecidableEq

def WriteFault.failure : WriteFault → Failure
  | .unwritable path error => .ofSystem ("Failed to write summary " ++ path) error

/-- A write that breaks off: why, and the files that it leaves. -/
structure WriteError where
  fault : WriteFault
  left : Files.Tree
  deriving Repr, DecidableEq

def WriteError.failure (e : WriteError) : Failure := e.fault.failure

/-- Write a summary over whatever the path held. A summary that finds no room in a file is written
as far as it goes. -/
def write (tree : Files.Tree) (path : String) (s : RunSummary) : Except WriteError Files.Tree := do
  let written ← (tree.create path).mapError fun error => ⟨.unwritable path error, tree⟩
  if Files.Tree.largestFile < s.toBytes.length then
    throw ⟨.unwritable path .fileTooLarge, written (s.toBytes.take Files.Tree.largestFile)⟩
  else return written s.toBytes

def writeEvents (path : String) : Except WriteError Files.Tree → List Event
  | .error _ => []
  | .ok _ => [.info "Wrote run summary" [("path", path)]]

end RunSummary

end CorpusAnnotator
