import CorpusAnnotator.Config.Basic
import CorpusAnnotator.Settings.Layers

/-! The configuration that layers of settings make. -/
namespace CorpusAnnotator.Config

open Settings (Layer Value)

/-! ## Layers -/

/-- Every key that always has a value, with its default. -/
def defaultLayer : Layer :=
  [("model.input", .text ""),
    ("model.threads", .integer defaultThreads),
    ("model.input_name", .text defaultInputName),
    ("model.output_name", .text defaultOutputName),
    ("corpus.path", .text ""),
    ("corpus.batch_size", .integer defaultBatchSize),
    ("evaluation.enabled", .flag false),
    ("evaluation.commons", .text ""),
    ("evaluation.evaluator", .text defaultEvaluator),
    ("evaluation.metric", .text defaultMetric),
    ("evaluation.strict", .flag false),
    ("logging.level", .text "info"),
    ("logging.format", .text "pretty")]

/-- A count as a signed word of 64 bits: from the middle of the range on it turns negative. -/
def signedWord (n : Nat) : Int := (n : Int).bmod Number.wordSize

/-- Every key that the command line can set, with what it says. A switch that is off says nothing. -/
def overrideOptions (o : Overrides) : List (String × Option Value) :=
  [("model.input", o.input.map .text),
    ("model.threads", o.threads.map fun n => .integer (signedWord n)),
    ("model.op_library", o.operatorLibrary.map .text),
    ("corpus.path", o.corpus.map .text),
    ("corpus.batch_size", o.batchSize.map fun n => .integer (signedWord n)),
    ("corpus.output", o.output.map .text),
    ("evaluation.enabled", if o.evaluate then some (.flag true) else none),
    ("evaluation.strict", if o.strict then some (.flag true) else none),
    ("evaluation.gold", o.gold.map .text),
    ("evaluation.commons", o.commons.map .text),
    ("evaluation.evaluator", o.evaluator.map .text),
    ("summary", o.summary.map .text)]

def overrideLayer (o : Overrides) : Layer :=
  Entries.present (overrideOptions o)

/-! ## Reading sections -/

/-- Why settings make no configuration. -/
inductive FormError where
  | mistyped (key : String)
  | malformed
  deriving Repr, DecidableEq

/-- A section gives its values by name, or in a fixed order when it is written as a list. -/
inductive Section where
  | named (name : String) (entries : List (String × Value))
  | ordered (name : String) (items : List Value)

def Section.of (name : String) (root : Value) : Except FormError Section :=
  match root.entries.lookup name with
  | some (.table entries) => .ok (.named name entries)
  | some (.list items) => .ok (.ordered name items)
  | _ => .error .malformed

/-- The value of a key, and the key as it is told. -/
def Section.find? (s : Section) (index : Nat) (key : String) : Option Value × String :=
  match s with
  | .named name entries => (entries.lookup key, name ++ "." ++ key)
  | .ordered name items => (items[index]?, name ++ s!"[{index}]")

/-- What a reading of a section gives: a value, or the reason why there is none. A value of the
wrong kind is a reason that goes before a value that is missing. -/
inductive Reading (α : Type) where
  | value (a : α)
  | missing
  | mistyped (key : String)

namespace Reading

variable {α β : Type}

def map (f : α → β) : Reading α → Reading β
  | .value a => .value (f a)
  | .missing => .missing
  | .mistyped key => .mistyped key

def app (f : Reading (α → β)) (a : Reading α) : Reading β :=
  match f, a with
  | .mistyped key, _ => .mistyped key
  | _, .mistyped key => .mistyped key
  | .missing, _ => .missing
  | _, .missing => .missing
  | .value f, .value a => .value (f a)

def toExcept : Reading α → Except FormError α
  | .value a => .ok a
  | .missing => .error .malformed
  | .mistyped key => .error (.mistyped key)

end Reading

/-- Read a value that has to be there. -/
def Section.required {α : Type} (convert : Value → Option α) (s : Section) (index : Nat)
    (key : String) : Reading α :=
  match s.find? index key with
  | (none, _) => .missing
  | (some v, shown) =>
    match convert v with
    | some a => .value a
    | none => .mistyped shown

/-- Convert a text that may be absent. -/
def textOrNothing? : Value → Option (Option String)
  | .nothing => some none
  | v => v.toText?.map some

/-- Read a text that may be absent. -/
def Section.optional (s : Section) (index : Nat) (key : String) : Reading (Option String) :=
  match s.find? index key with
  | (none, _) => .value none
  | (some v, shown) =>
    match textOrNothing? v with
    | some a => .value a
    | none => .mistyped shown

def modelOf (s : Section) : Reading ModelConfig :=
  (s.required Value.toText? 0 "input").map ModelConfig.mk
    |>.app (s.required Value.toCount? 1 "threads")
    |>.app (s.required Value.toText? 2 "input_name")
    |>.app (s.required Value.toText? 3 "output_name")
    |>.app (s.optional 4 "op_library")

def corpusOf (s : Section) : Reading CorpusConfig :=
  (s.required Value.toText? 0 "path").map CorpusConfig.mk
    |>.app (s.required Value.toCount? 1 "batch_size")
    |>.app (s.optional 2 "output")

def evaluationOf (s : Section) : Reading EvaluationConfig :=
  (s.required Value.toFlag? 0 "enabled").map EvaluationConfig.mk
    |>.app (s.optional 1 "gold")
    |>.app (s.required Value.toText? 2 "commons")
    |>.app (s.required Value.toText? 3 "evaluator")
    |>.app (s.required Value.toText? 4 "metric")
    |>.app (s.required Value.toFlag? 5 "strict")

def loggingOf (s : Section) : Reading LoggingConfig :=
  (s.required Value.toText? 0 "level").map LoggingConfig.mk
    |>.app (s.required Value.toText? 1 "format")

/-- An empty text where one is optional means that there is none. -/
def clearEmpty : Option String → Option String
  | some "" => none
  | s => s

def normalized (c : Config) : Config where
  model := { c.model with operatorLibrary := clearEmpty c.model.operatorLibrary }
  corpus := { c.corpus with output := clearEmpty c.corpus.output }
  evaluation := { c.evaluation with gold := clearEmpty c.evaluation.gold }
  logging := c.logging
  summary := clearEmpty c.summary

/-- The configuration that a table of settings describes. -/
def ofSettings (root : Value) : Except FormError Config := do
  let model ← (modelOf (← Section.of "model" root)).toExcept
  let corpus ← (corpusOf (← Section.of "corpus" root)).toExcept
  let evaluation ← (evaluationOf (← Section.of "evaluation" root)).toExcept
  let logging ← (loggingOf (← Section.of "logging" root)).toExcept
  match textOrNothing? ((root.entries.lookup "summary").getD .nothing) with
  | none => throw (.mistyped "summary")
  | some summary => return normalized ⟨model, corpus, evaluation, logging, summary⟩

/-! ## Loading -/

inductive LoadError where
  | file (error : Settings.FileError)
  | form (error : FormError)
  deriving Repr, DecidableEq

def LoadError.failure : LoadError → Failure
  | .file .unreadable => ⟨["Failed to build configuration"], some (.settings .unreadableFile)⟩
  | .file .malformed => ⟨["Failed to build configuration"], some (.settings .malformedFile)⟩
  | .form (.mistyped key) =>
    ⟨["Failed to deserialize configuration"], some (.settings (.mistyped key))⟩
  | .form .malformed => ⟨["Failed to deserialize configuration"], some (.settings .malformed)⟩

/-- Variables of this program begin with this mark, in any case. -/
def variableMark : String := "sempar__"

/-- The configuration that a file, the environment and the command line make over the defaults. -/
def load (tree : Files.Tree) (path : Option String) (overrides : Overrides)
    (environment : List (String × String)) : Except LoadError Config := do
  let file ←
    match path with
    | none => pure []
    | some path => (Settings.fileLayer tree path).mapError LoadError.file
  let named := Settings.environmentLayer variableMark environment
  let root := Settings.resolve defaultLayer [file, named] (overrideLayer overrides)
  (ofSettings root).mapError LoadError.form

end CorpusAnnotator.Config
