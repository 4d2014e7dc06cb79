import CorpusAnnotator.MasterSpec

/-! A model directory: a master spec, and the checkpoint of the trained parameters. -/
namespace CorpusAnnotator.Model

inductive Error where
  | spec (error : MasterSpec.LoadError)
  | noCheckpoint (first second : String)
  deriving Repr, DecidableEq

def Error.failure : Error → Failure
  | .spec error => error.failure
  | .noCheckpoint first second =>
    .plain ("No checkpoint at " ++ first ++ " (or " ++ second ++ ")")

/-- Where the best checkpoint of a directory lies: without an extension, or with one. -/
def checkpointPath (directory : String) : String :=
  Files.joinPath (Files.joinPath directory "checkpoints") "best"

def checkpointPathWithExtension (directory : String) : String :=
  checkpointPath directory ++ ".onnx"

/-- The checkpoint file of a model directory; the one without an extension goes first. -/
def checkpoint (tree : Files.Tree) (directory : String) : Except Error String :=
  let first := checkpointPath directory
  let second := checkpointPathWithExtension directory
  if tree.isFile first then .ok first
  else if tree.isFile second then .ok second
  else .error (.noCheckpoint first second)

/-- The spec and the checkpoint of a model directory, looked for in this order. -/
def locate (tree : Files.Tree) (directory : String) : Except Error (MasterSpec × String) := do
  let spec ← (MasterSpec.load tree directory).mapError .spec
  let path ← checkpoint tree directory
  return (spec, path)

end CorpusAnnotator.Model
