import CorpusAnnotator.Failure

/-! The configuration of a run, and the conditions under which a run makes sense. -/
namespace CorpusAnnotator

/-- The model directory, and how its session is set up. -/
structure ModelConfig where
  input : String
  threads : Nat
  inputName : String
  outputName : String
  operatorLibrary : Option String
  deriving Repr, DecidableEq

/-- Where documents come from, how many are annotated at a time, and where they go. -/
structure CorpusConfig where
  path : String
  batchSize : Nat
  output : Option String
  deriving Repr, DecidableEq

/-- Whether and how the annotated corpus is evaluated; `metric` is how the name of the headline
metric begins, and `strict` makes a failing evaluator fail the run. -/
structure EvaluationConfig where
  enabled : Bool
  gold : Option String
  commons : String
  evaluator : String
  metric : String
  strict : Bool
  deriving Repr, DecidableEq

structure LoggingConfig where
  level : String
  format : String
  deriving Repr, DecidableEq

structure Config where
  model : ModelConfig
  corpus : CorpusConfig
  evaluation : EvaluationConfig
  logging : LoggingConfig
  summary : Option String
  deriving Repr, DecidableEq

/-- What the command line asks for; what is absent or false leaves the other layers as they are. -/
structure Overrides where
  input : Option String
  commons : Option String
  corpus : Option String
  gold : Option String
  output : Option String
  threads : Option Nat
  batchSize : Option Nat
  evaluate : Bool
  strict : Bool
  evaluator : Option String
  operatorLibrary : Option String
  summary : Option String
  deriving Repr, DecidableEq

def Overrides.none : Overrides :=
  { input := Option.none
    commons := Option.none
    corpus := Option.none
    gold := Option.none
    output := Option.none
    threads := Option.none
    batchSize := Option.none
    evaluate := false
    strict := false
    evaluator := Option.none
    operatorLibrary := Option.none
    summary := Option.none }

namespace Config

def defaultThreads : Nat := 8

def defaultBatchSize : Nat := 1024

def defaultInputName : String := "input_batch"

def defaultOutputName : String := "annotations"

def defaultEvaluator : String := "bazel-bin/nlp/parser/tools/evaluate-frames"

def defaultMetric : String := "SLOT_F1"

/-- The configuration when nothing is set. -/
def standard : Config where
  model :=
    { input := ""
      threads := defaultThreads
      inputName := defaultInputName
      outputName := defaultOutputName
      operatorLibrary := none }
  corpus := { path := "", batchSize := defaultBatchSize, output := none }
  evaluation :=
    { enabled := false
      gold := none
      commons := ""
      evaluator := defaultEvaluator
      metric := defaultMetric
      strict := false }
  logging := { level := "info", format := "pretty" }
  summary := none

/-- What a configuration lacks. -/
inductive Lack where
  | input
  | corpus
  | threads
  | batchSize
  | output
  | gold
  deriving Repr, DecidableEq

def Lack.message : Lack → String
  | .input => "Need to provide --input model directory"
  | .corpus => "Need to provide --corpus"
  | .threads => "--threads must be at least 1"
  | .batchSize => "--batch_size must be at least 1"
  | .output => "Need to provide --output for evaluation"
  | .gold => "Need to provide --gold for evaluation"

/-- The gold corpus and the annotated one, which an evaluation compares. -/
def evaluationPaths (c : Config) : Except Lack (String × String) :=
  match c.corpus.output, c.evaluation.gold with
  | none, _ => .error .output
  | some _, none => .error .gold
  | some output, some gold => .ok (gold, output)

/-- Whether a run makes sense; if not, the first thing that is lacking. -/
def validate (c : Config) : Except Lack Unit :=
  if c.model.input.isEmpty then .error .input
  else if c.corpus.path.isEmpty then .error .corpus
  else if c.model.threads = 0 then .error .threads
  else if c.corpus.batchSize = 0 then .error .batchSize
  else if c.evaluation.enabled then c.evaluationPaths.map fun _ => ()
  else .ok ()

end Config

end CorpusAnnotator
