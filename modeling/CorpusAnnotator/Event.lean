/-! Events: what the program tells about its work while it runs. -/
namespace CorpusAnnotator

inductive Level where
  | info
  | warning
  | error
  deriving Repr, DecidableEq

def Level.name : Level → String
  | .info => "INFO"
  | .warning => "WARN"
  | .error => "ERROR"

/-- A message with named details. -/
structure Event where
  level : Level
  message : String
  details : List (String × String)
  deriving Repr, DecidableEq

def Event.info (message : String) (details : List (String × String)) : Event :=
  ⟨.info, message, details⟩

def Event.warning (message : String) (details : List (String × String)) : Event :=
  ⟨.warning, message, details⟩

end CorpusAnnotator
