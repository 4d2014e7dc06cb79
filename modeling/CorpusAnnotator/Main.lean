import CorpusAnnotator.Corpus.Synthetic
import CorpusAnnotator.Startup

/-! The command line. The working directory is read into a tree, the program runs on that tree, and
what it changes is written back. Under the name `synth-corpus` it makes a synthetic corpus; under
any other it gets a run ready. -/
namespace CorpusAnnotator.Program

open Files (Node Place Tree)

/-- The files and directories below a place. -/
partial def collect (place : Place) (entries : Array IO.FS.DirEntry) :
    IO (List (Place × Node)) := do
  let mut found := []
  for entry in entries do
    let inner := place.child entry.fileName
    if ← entry.path.isDir then
      found := (← collect inner (← entry.path.readDir)) ++ (inner, .directory) :: found
    else
      let bytes ← IO.FS.readBinFile entry.path
      found := (inner, .file bytes.toList false) :: found
  return found

def workingTree : IO Tree := do
  let directory ← IO.currentDir
  return ⟨← collect .here (← directory.readDir)⟩

/-- Write a file where the tree has it. -/
def store (tree : Tree) (path : String) : IO Unit := do
  match tree.read path with
  | .ok bytes => IO.FS.writeBinFile path ⟨bytes.toArray⟩
  | .error _ => return ()

/-- The environment: texts `NAME=VALUE`, each ended by a zero byte. -/
def environment : IO (List (String × String)) := do
  let bytes ← IO.FS.readBinFile "/proc/self/environ"
  let texts := (String.fromUTF8? bytes).getD "" |>.toList |> Text.split '\x00'
  return texts.filterMap fun text =>
    match text.span (· ≠ '=') with
    | (name, '=' :: value) => some (String.ofList name, String.ofList value)
    | _ => none

def usage : String :=
  "Usage: sempar-parse [OPTIONS]\n"

/-- Get a run ready. Without a session nothing can be annotated, so the program ends there. -/
def annotate (arguments : List String) : IO UInt32 := do
  match Startup.begin (← workingTree) (← environment) arguments with
  | .ok ready =>
    IO.eprint ((Failure.plain ("no session for " ++ ready.checkpoint)).report)
    return 1
  | .error e =>
    match e.failure? with
    | some failure => IO.eprint failure.report
    | none => if e.exitCode = 0 then IO.print usage else IO.eprint usage
    return UInt32.ofNat e.exitCode

/-- Make a synthetic corpus. -/
def synthesize (arguments : List String) : IO UInt32 := do
  let plan := Corpus.SyntheticPlan.ofArguments arguments
  match plan.write (← IO.stdGenRef.get) (← workingTree) with
  | .ok after =>
    store after plan.path
    return 0
  | .error e =>
    IO.eprint e.failure.report
    return 1

end CorpusAnnotator.Program

def main (arguments : List String) : IO UInt32 := do
  if (← IO.appPath).fileName = some "synth-corpus" then
    CorpusAnnotator.Program.synthesize arguments
  else CorpusAnnotator.Program.annotate arguments
