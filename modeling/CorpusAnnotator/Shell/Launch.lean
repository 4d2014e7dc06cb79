import CorpusAnnotator.Evaluation.Evaluator
import CorpusAnnotator.Shell.Parser
import CorpusAnnotator.Shell.Run

/-! Starting programs. A program is a script that its first line gives to the shell, or one of a few
that are found by name alone. -/
namespace CorpusAnnotator.Shell

open Evaluation (Command Exit)
open Files (SystemError Tree)

/-- The shells that the first line of a script may name. -/
def interpreters : List String :=
  ["/bin/sh", "/bin/bash", "/bin/dash", "/usr/bin/sh", "/usr/bin/bash", "/usr/bin/dash",
    "/usr/bin/env sh", "/usr/bin/env bash"]

/-- The interpreter that the first line of a file names. -/
def interpreter? (text : List Char) : Option String :=
  match text with
  | '#' :: '!' :: rest =>
    let line := (rest.takeWhile (· ≠ '\n')).dropWhile isGap
    some (String.ofList (line.reverse.dropWhile isGap).reverse)
  | _ => none

/-- The end of a machine that has run. -/
def exitOf (m : Machine) (flow : Flow) : Exit where
  code := if flow = .killed then none else some m.status
  output := toBytes (m.buffers[0]?.getD [])
  errors := toBytes (m.buffers[1]?.getD [])

/-- Run the script in a file. -/
def runFile (tree : Tree) (c : Evaluation.Command) (text : List Char) : Tree × Exit :=
  let m := Machine.start tree (encoded c.program) (c.arguments.map encoded)
  match parse? text with
  | some script =>
    let (m, flow) := run ample m script
    (m.tree, exitOf m flow)
  | none => (tree, exitOf ((m.complain 1 "Syntax error".toList).withStatus 2) .finish)

/-- Programs that are found without a path. -/
def runUtility? (tree : Tree) (c : Evaluation.Command) : Option (Tree × Exit) :=
  let name := encoded c.program
  if c.program ∈ ["true", "false", "echo"] then
    let (m, flow) := (Machine.start tree name []).call 0 name (c.arguments.map encoded)
    some (m.tree, exitOf m flow)
  else none

/-- Start a program. One whose name holds a slash is a path; any other is looked for. -/
def launch : Evaluation.Launcher := fun tree c =>
  if c.program.toList.contains '\x00' || c.arguments.any (·.toList.contains '\x00') then
    .error .nullInName
  else if !c.program.toList.contains '/' then
    match runUtility? tree c with
    | some result => .ok result
    | none => .error .notFound
  else do
    let place ← tree.resolve c.program
    match tree.node? place with
    | some (.file bytes true) =>
      let text := ofBytes bytes
      match interpreter? text with
      | none => .error .notExecutable
      | some name => if name ∈ interpreters then .ok (runFile tree c text) else .error .notFound
    | some _ => .error .permissionDenied
    | none => .error .notFound

end CorpusAnnotator.Shell
