import CorpusAnnotator.Files.SystemError

/-! How a failure is told: a chain of messages from the outermost inwards, and perhaps a source that
has words of its own. -/
namespace CorpusAnnotator

/-- What is wrong with settings. -/
inductive SettingsProblem where
  /-- The file is missing, of no known format, or not text. -/
  | unreadableFile
  | malformedFile
  /-- The value of a key cannot be turned into what the key wants. -/
  | mistyped (key : String)
  /-- A section is no section, or one of its values is missing. -/
  | malformed
  deriving Repr, DecidableEq

def SettingsProblem.text : SettingsProblem → String
  | .unreadableFile => "the configuration file cannot be read"
  | .malformedFile => "the configuration file is malformed"
  | .mistyped key => "invalid type for key " ++ key
  | .malformed => "the configuration has the wrong form"

/-- What lies at the bottom of a failure when that is not the program's own finding. -/
inductive Source where
  | system (error : Files.SystemError)
  /-- An archive entry that cannot be opened. -/
  | archive (reason : String)
  /-- A malformed file pattern. -/
  | pattern (reason : String)
  | settings (problem : SettingsProblem)
  deriving Repr, DecidableEq

def Source.text : Source → String
  | .system error => error.message
  | .archive reason => reason
  | .pattern reason => reason
  | .settings problem => problem.text

structure Failure where
  messages : List String
  source : Option Source
  deriving Repr, DecidableEq

namespace Failure

/-- A finding in one message. -/
def plain (message : String) : Failure := ⟨[message], none⟩

/-- A refusal of the system during what `message` says. -/
def ofSystem (message : String) (error : Files.SystemError) : Failure :=
  ⟨[message], some (.system error)⟩

/-- Say what was being done when the failure arose. -/
def during (message : String) (f : Failure) : Failure :=
  { f with messages := message :: f.messages }

def message (f : Failure) : String :=
  String.intercalate ": " f.messages

/-- The report on the error stream: the first message, and below it what caused it, numbered when
there is more than one cause. -/
def report (f : Failure) : String :=
  let texts := f.messages ++ (f.source.map Source.text).toList
  let causes := texts.drop 1
  let listed :=
    match causes with
    | [] => ""
    | [cause] => "\n\nCaused by:\n    " ++ cause
    | causes =>
      "\n\nCaused by:" ++ String.join (causes.mapIdx fun i cause => s!"\n    {i}: " ++ cause)
  "Error: " ++ texts.headD "" ++ listed ++ "\n"

end Failure

end CorpusAnnotator
