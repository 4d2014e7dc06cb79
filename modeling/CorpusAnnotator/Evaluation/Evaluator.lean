import CorpusAnnotator.Config.Basic
import CorpusAnnotator.Evaluation.Report
import CorpusAnnotator.Files.Tree
import CorpusAnnotator.Text.Utf8

/-! The evaluator: another program, which compares an annotated corpus with a gold corpus and prints
a report. What it does is not known here; only how it is called and what its end means. -/
namespace CorpusAnnotator.Evaluation

/-- A program to start, and its arguments. -/
structure Command where
  program : String
  arguments : List String
  deriving Repr, DecidableEq

/-- How a program ended: its exit code, which is missing where a signal ended it, and what it wrote
to its two streams. -/
structure Exit where
  code : Option Int
  output : List UInt8
  errors : List UInt8
  deriving Repr, DecidableEq

/-- The text of both streams, the output first. -/
def Exit.text (e : Exit) : String :=
  String.ofList (Text.Utf8.decodeLenient e.output ++ Text.Utf8.decodeLenient e.errors)

def Exit.isSuccess (e : Exit) : Bool := e.code = some 0

/-- What starting programs does to the files, and how they end; or why they cannot be started. -/
abbrev Launcher := Files.Tree → Command → Except Files.SystemError (Files.Tree × Exit)

/-- What an evaluation comes to. -/
inductive Outcome where
  | completed (report : Report)
  | failed (code : Option Int) (output : String)
  deriving Repr, DecidableEq

namespace Outcome

def isCompleted : Outcome → Bool
  | .completed _ => true
  | .failed _ _ => false

/-- The value of the headline, if there is a report. -/
def overall? : Outcome → Option Number.Binary64
  | .completed report => some report.overall
  | .failed _ _ => none

end Outcome

/-- An exit code as it is told. -/
def shownCode : Option Int → String
  | some code => s!"Some({code})"
  | none => "None"

inductive Error where
  | unstartable (program : String) (error : Files.SystemError)
  | badReport (error : ReportError)
  deriving Repr, DecidableEq

def Error.failure : Error → Failure
  | .unstartable program error => .ofSystem ("Failed to run evaluator " ++ program) error
  | .badReport error => error.failure

/-- An evaluator program, the store of names that it shares with the parser, and the beginning of
the name of its headline. -/
structure Evaluator where
  program : String
  commons : String
  headline : String
  deriving Repr, DecidableEq

namespace Evaluator

def ofConfig (c : EvaluationConfig) : Evaluator :=
  ⟨c.evaluator, c.commons, c.metric⟩

/-- How the evaluator is called on a gold corpus and an annotated one. -/
def command (e : Evaluator) (gold test : String) : Command where
  program := e.program
  arguments :=
    ["--gold_documents=" ++ gold, "--test_documents=" ++ test, "--commons=" ++ e.commons]

/-- What an attempt to run the evaluator comes to. Only the output of a successful end is read. -/
def outcome (e : Evaluator) : Except Files.SystemError Exit → Except Error Outcome
  | .error error => .error (.unstartable e.program error)
  | .ok exit =>
    if exit.isSuccess then
      match Report.read exit.text e.headline with
      | .ok report => .ok (.completed report)
      | .error error => .error (.badReport error)
    else .ok (.failed exit.code exit.text)

/-- What is told about an attempt. -/
def events (e : Evaluator) (gold test : String) (attempt : Except Files.SystemError Exit) :
    List Event :=
  .info "Evaluating against gold corpus" [("evaluator", e.program), ("gold", gold), ("test", test)]
    :: match attempt with
    | .error _ => []
    | .ok exit =>
      if exit.isSuccess then
        Report.readEvents exit.text ++
          match Report.read exit.text e.headline with
          | .ok report =>
            [.info ("Overall Evaluation Metric: " ++ Number.fixedText 6 report.overall) []]
          | .error _ => []
      else
        [.warning "Evaluation failed" [("exit_code", shownCode exit.code), ("output", exit.text)]]

end Evaluator

end CorpusAnnotator.Evaluation
