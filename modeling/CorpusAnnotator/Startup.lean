import CorpusAnnotator.CommandLine
import CorpusAnnotator.Config.Load
import CorpusAnnotator.Logging.Filter
import CorpusAnnotator.Model

/-! From a command line to a run that can begin: the configuration is loaded and found to make
sense, and the model is located. What goes wrong on the way decides how the program exits. -/
namespace CorpusAnnotator

/-- All that a run needs before its session is set up. -/
structure Startup where
  config : Config
  spec : MasterSpec
  checkpoint : String
  deriving Repr, DecidableEq

namespace Startup

/-- Why a program does not start. -/
inductive Error where
  | refused (r : CommandLine.Refusal)
  | settings (e : Config.LoadError)
  | filter
  | lack (l : Config.Lack)
  | model (e : Model.Error)
  deriving Repr, DecidableEq

/-- The code that the program exits with. Requests for help are met, and are no errors. -/
def Error.exitCode : Error → Nat
  | .refused .help => 0
  | .refused .version => 0
  | .refused _ => 2
  | _ => 1

/-- What is wrong, unless the command line itself is. -/
def Error.failure? : Error → Option Failure
  | .refused _ => none
  | .settings e => some e.failure
  | .filter => some (.plain "invalid filter directive")
  | .lack l => some (.plain l.message)
  | .model e => some e.failure

/-- Get ready for a run. -/
def begin (tree : Files.Tree) (environment : List (String × String)) (arguments : List String) :
    Except Error Startup := do
  let a ← (CommandLine.parse arguments).mapError .refused
  let config ← (Config.load tree a.config a.overrides environment).mapError .settings
  if (Logging.filter? environment config.logging.level).isNone then throw .filter
  config.validate.mapError .lack
  let (spec, checkpoint) ← (Model.locate tree config.model.input).mapError .model
  return ⟨config, spec, checkpoint⟩

end Startup

end CorpusAnnotator
