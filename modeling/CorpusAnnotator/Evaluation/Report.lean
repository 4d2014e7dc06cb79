import CorpusAnnotator.Event
import CorpusAnnotator.Evaluation.Scores
import CorpusAnnotator.Failure
import CorpusAnnotator.Number.Decimal
import CorpusAnnotator.Text.Blank
import CorpusAnnotator.Text.Quoted
import CorpusAnnotator.Text.Split

/-! What an evaluator reports: one line for each metric, with its name, a tab and its value. Blank
lines and blanks at the end of a line say nothing. -/
namespace CorpusAnnotator.Evaluation

open Number (Binary64)

/-- The scores by name, and the one that counts. -/
structure Report where
  scores : Scores
  headline : String
  overall : Binary64
  deriving Repr, DecidableEq

/-- Why an output is no report. -/
inductive ReportError where
  | badLine (line : String)
  | badValue (line : String) (error : Number.FloatError)
  /-- No name begins as the headline has to. -/
  | noHeadline (beginning : String)
  deriving Repr, DecidableEq

def ReportError.failure : ReportError → Failure
  | .badLine line => .plain ("Malformed evaluation line: " ++ Text.quoted line)
  | .badValue line error =>
    ⟨["Malformed metric value in line " ++ Text.quoted line, error.message], none⟩
  | .noHeadline beginning => .plain ("Missing " ++ beginning ++ " in evaluation output")

namespace Report

/-- The lines of an output that say something, without the blanks at their ends. -/
def lines (output : List Char) : List (List Char) :=
  ((Text.split '\n' output).map Text.trimEnd).filter fun line => !line.isEmpty

/-- The name and the value of a line. -/
def readLine (line : List Char) : Except ReportError (String × Binary64) :=
  match Text.split '\t' line with
  | [name, value] =>
    match Number.readFloat (Text.trim value) with
    | .ok x => .ok (String.ofList name, x)
    | .error e => .error (.badValue (String.ofList line) e)
  | _ => .error (.badLine (String.ofList line))

/-- The last entry whose name begins in a certain way. -/
def headline? (beginning : String) (entries : List (String × Binary64)) :
    Option (String × Binary64) :=
  entries.reverse.find? fun (name, _) => beginning.toList.isPrefixOf name.toList

/-- The report that named values make. -/
def ofEntries (beginning : String) (entries : List (String × Binary64)) :
    Except ReportError Report :=
  match headline? beginning entries with
  | some (name, value) => .ok ⟨.ofList entries, name, value⟩
  | none => .error (.noHeadline beginning)

/-- Read an output whose headline has a name that begins with `beginning`. -/
def read (output beginning : String) : Except ReportError Report := do
  ofEntries beginning (← (lines output.toList).mapM readLine)

/-! ## What is told -/

/-- The lines that are looked at: those up to the first that cannot be read. -/
def linesSeen : List (List Char) → List (List Char)
  | [] => []
  | line :: rest =>
    match readLine line with
    | .ok _ => line :: linesSeen rest
    | .error _ => [line]

def readEvents (output : String) : List Event :=
  (linesSeen (lines output.toList)).map fun line =>
    .info ("Evaluation Metric: " ++ String.ofList line) []

end Report

end CorpusAnnotator.Evaluation
