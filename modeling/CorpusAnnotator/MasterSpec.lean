import CorpusAnnotator.Event
import CorpusAnnotator.Failure
import CorpusAnnotator.Files.Tree
import CorpusAnnotator.Number.Integer
import CorpusAnnotator.TextFormat.Parser

/-! The master spec of a trained parser: the layout of its components, read from a file in text
format inside the model directory. -/
namespace CorpusAnnotator

/-- A component: its name, the registered name of its transition system, and the number of its
actions. -/
structure Component where
  name : String
  transitionSystem : Option String
  actions : Option Int
  deriving Repr, DecidableEq

structure MasterSpec where
  components : List Component
  deriving Repr, DecidableEq

namespace MasterSpec

open TextFormat (Message)

/-- Why a text is no master spec. A component without a name is told by its number. -/
inductive Error where
  | malformed (error : TextFormat.Error)
  | unnamed (index : Nat)
  | badActions (component text : String) (error : Number.IntegerError)
  | noComponent
  deriving Repr, DecidableEq

def Error.failure : Error → Failure
  | .malformed error => .plain error.message
  | .unnamed index => .plain s!"component #{index} has no name"
  | .badActions component text error =>
    ⟨["component '" ++ component ++ "' has invalid num_actions '" ++ text ++ "'", error.message],
      none⟩
  | .noComponent => .plain "master spec declares no component"

/-- The component that a message declares; `index` components come before it. -/
def component (index : Nat) (m : Message) : Except Error Component := do
  let some name := m.scalar? "name" | throw (.unnamed index)
  let transitionSystem := (m.message? "transition_system").bind (·.scalar? "registered_name")
  match m.scalar? "num_actions" with
  | none => return ⟨name, transitionSystem, none⟩
  | some text =>
    match Number.readInt64 text.toList with
    | .ok n => return ⟨name, transitionSystem, some n⟩
    | .error e => throw (.badActions name text e)

/-- The components that messages declare, from number `index` on. -/
def componentsFrom (index : Nat) : List Message → Except Error (List Component)
  | [] => .ok []
  | m :: rest => do
    let c ← component index m
    let cs ← componentsFrom (index + 1) rest
    return c :: cs

/-- The spec that a message declares. Only messages in its own fields named `component` count. -/
def ofMessage (m : Message) : Except Error MasterSpec := do
  let components ← componentsFrom 0 (m.messages "component")
  if components.isEmpty then throw .noComponent
  return ⟨components⟩

def read (text : String) : Except Error MasterSpec :=
  match Message.read text with
  | .ok m => ofMessage m
  | .error e => .error (.malformed e)

def names (s : MasterSpec) : List String :=
  s.components.map Component.name

/-- The name of the spec's file in a model directory. -/
def fileName : String := "master_spec"

inductive LoadError where
  | unreadable (path : String) (error : Files.SystemError)
  | invalid (path : String) (error : Error)
  deriving Repr, DecidableEq

def LoadError.failure : LoadError → Failure
  | .unreadable path error => .ofSystem ("Failed to read master spec " ++ path) error
  | .invalid path error => error.failure.during ("Invalid master spec " ++ path)

/-- The spec of a model directory. -/
def load (tree : Files.Tree) (directory : String) : Except LoadError MasterSpec :=
  let path := Files.joinPath directory fileName
  match tree.readText path with
  | .error e => .error (.unreadable path e)
  | .ok text => (read (String.ofList text)).mapError (.invalid path)

/-- What is told about a load. -/
def loadEvents (directory : String) : Except LoadError MasterSpec → List Event
  | .error _ => []
  | .ok s =>
    [.info "Master spec loaded" [("path", Files.joinPath directory fileName),
      ("components", Text.quotedList s.names)]]

end MasterSpec

end CorpusAnnotator
