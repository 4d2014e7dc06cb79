import CorpusAnnotator.Config.Basic
import CorpusAnnotator.Number.Integer
import CorpusAnnotator.Text.Split

/-! The command line: long options, some with a value, in any order. A value follows its option
after an equals sign or as the next argument; only in the first way may it begin with a hyphen. -/
namespace CorpusAnnotator.CommandLine

/-- Options that take a value. -/
inductive Valued where
  | config
  | input
  | commons
  | corpus
  | gold
  | output
  | threads
  | batchSize
  | evaluator
  | operatorLibrary
  | summary
  deriving Repr, DecidableEq

/-- Options that take none. -/
inductive Switch where
  | evaluate
  | strict
  | help
  | version
  deriving Repr, DecidableEq

inductive Flag where
  | valued (v : Valued)
  | switch (s : Switch)
  deriving Repr, DecidableEq

/-- The options by name. -/
def flags : List (String × Flag) :=
  [("config", .valued .config), ("input", .valued .input), ("commons", .valued .commons),
    ("corpus", .valued .corpus), ("gold", .valued .gold), ("output", .valued .output),
    ("threads", .valued .threads), ("batch_size", .valued .batchSize),
    ("evaluator", .valued .evaluator), ("op_library", .valued .operatorLibrary),
    ("summary", .valued .summary), ("eval", .switch .evaluate),
    ("strict_eval", .switch .strict), ("help", .switch .help), ("version", .switch .version)]

/-- Why a command line says nothing to run. The last two are requests, not faults. -/
inductive Refusal where
  | unknownArgument
  | missingValue
  | badNumber
  | repeated
  | unwantedValue
  | help
  | version
  deriving Repr, DecidableEq

/-- The options of a command line, each with what was given for it. -/
structure Arguments where
  config : Option String
  input : Option String
  commons : Option String
  corpus : Option String
  gold : Option String
  output : Option String
  threads : Option Nat
  batchSize : Option Nat
  evaluate : Bool
  strict : Bool
  evaluator : Option String
  operatorLibrary : Option String
  summary : Option String
  deriving Repr, DecidableEq

def Arguments.empty : Arguments where
  config := none
  input := none
  commons := none
  corpus := none
  gold := none
  output := none
  threads := none
  batchSize := none
  evaluate := false
  strict := false
  evaluator := none
  operatorLibrary := none
  summary := none

/-- What goes over the configuration, which is all but the file that it is read from. -/
def Arguments.overrides (a : Arguments) : Overrides where
  input := a.input
  commons := a.commons
  corpus := a.corpus
  gold := a.gold
  output := a.output
  threads := a.threads
  batchSize := a.batchSize
  evaluate := a.evaluate
  strict := a.strict
  evaluator := a.evaluator
  operatorLibrary := a.operatorLibrary
  summary := a.summary

/-- Store a text, unless the option has been given before. -/
def once (before : Option String) (value : String) : Except Refusal (Option String) :=
  if before.isSome then .error .repeated else .ok (some value)

/-- Store a count of 64 bits, unless the option has been given before. -/
def onceCount (before : Option Nat) (value : String) : Except Refusal (Option Nat) :=
  if before.isSome then .error .repeated
  else
    match Number.readNat64 value.toList with
    | .ok n => .ok (some n)
    | .error _ => .error .badNumber

def Valued.store (o : Valued) (value : String) (a : Arguments) : Except Refusal Arguments :=
  match o with
  | .config => do
    let config ← once a.config value
    if value.isEmpty then throw .missingValue else return { a with config }
  | .input => do return { a with input := ← once a.input value }
  | .commons => do return { a with commons := ← once a.commons value }
  | .corpus => do return { a with corpus := ← once a.corpus value }
  | .gold => do return { a with gold := ← once a.gold value }
  | .output => do return { a with output := ← once a.output value }
  | .threads => do return { a with threads := ← onceCount a.threads value }
  | .batchSize => do return { a with batchSize := ← onceCount a.batchSize value }
  | .evaluator => do return { a with evaluator := ← once a.evaluator value }
  | .operatorLibrary => do return { a with operatorLibrary := ← once a.operatorLibrary value }
  | .summary => do return { a with summary := ← once a.summary value }

def Switch.store (s : Switch) (a : Arguments) : Except Refusal Arguments :=
  match s with
  | .evaluate => if a.evaluate then .error .repeated else .ok { a with evaluate := true }
  | .strict => if a.strict then .error .repeated else .ok { a with strict := true }
  | .help => .error .help
  | .version => .error .version

/-- What has been read: the arguments stored, and the option last named, with its value if that has
come already. An option is stored when the next one is named, or at the end. -/
structure Progress where
  stored : Arguments
  pending : Option (Valued × Option String)
  deriving Repr, DecidableEq

def Progress.start : Progress := ⟨.empty, none⟩

/-- Store the pending option. -/
def Progress.settle (p : Progress) : Except Refusal Arguments :=
  match p.pending with
  | none => .ok p.stored
  | some (_, none) => .error .missingValue
  | some (o, some value) => o.store value p.stored

def Progress.switch (p : Progress) (s : Switch) : Except Refusal Progress := do
  return ⟨← s.store (← p.settle), none⟩

/-- The name of a long option, and the value after its equals sign. -/
def splitLong (text : List Char) : String × Option String :=
  let name := String.ofList (text.takeWhile (· ≠ '='))
  match text.dropWhile (· ≠ '=') with
  | [] => (name, none)
  | _ :: value => (name, some (String.ofList value))

/-- A long option, from after its hyphens. -/
def Progress.long (p : Progress) (text : List Char) : Except Refusal Progress :=
  let (name, value) := splitLong text
  match flags.lookup name, value with
  | none, _ => .error .unknownArgument
  | some (.valued o), none => do return ⟨← p.settle, some (o, none)⟩
  | some (.valued o), some value => do return ⟨← o.store value (← p.settle), none⟩
  | some (.switch s), none => p.switch s
  | some (.switch _), some _ => .error .unwantedValue

/-- An argument that is not an option: the value that the pending option waits for. -/
def Progress.plain (p : Progress) (text : String) : Except Refusal Progress :=
  match p.pending with
  | some (o, none) => .ok { p with pending := some (o, some text) }
  | _ => .error .unknownArgument

/-- Read arguments. Two hyphens alone end the options, and nothing may follow them. -/
def Progress.read (p : Progress) : List String → Except Refusal Arguments
  | [] => p.settle
  | argument :: rest =>
    match argument.toList with
    | ['-', '-'] => if rest.isEmpty then p.settle else .error .unknownArgument
    | '-' :: '-' :: text => do (← p.long text).read rest
    | '-' :: c :: _ =>
      if c = 'h' then do (← p.switch .help).read rest
      else if c = 'V' then do (← p.switch .version).read rest
      else .error .unknownArgument
    | _ => do (← p.plain argument).read rest

def parse (arguments : List String) : Except Refusal Arguments :=
  Progress.start.read arguments

end CorpusAnnotator.CommandLine
