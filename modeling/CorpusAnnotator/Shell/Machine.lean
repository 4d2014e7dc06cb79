import CorpusAnnotator.Shell.Script
import CorpusAnnotator.Shell.Utilities

/-! The state of a running script, and the utilities that a script can call. -/
namespace CorpusAnnotator.Shell

/-! ## Machines -/

/-- Where a stream goes: to a buffer, to the end of a file, or nowhere. -/
inductive Sink where
  | buffer (index : Nat)
  | file (path : String)
  | nowhere
  deriving Repr, DecidableEq

/-- What comes after a command: the next one, the end of the script, death by a signal, or the end
or another round of some loops around it. -/
inductive Flow where
  | onward
  | finish
  | killed
  | leave (loops : Nat)
  | again (loops : Nat)
  deriving Repr, DecidableEq

/-- The state of a script: the files, its name, its arguments, the values of its variables, the
status of the last command and of the last output taken into a word, the text of its buffers, of
which the first two are its streams, the input, where the streams go, and whether a word could not
be made. -/
structure Machine where
  tree : Files.Tree
  name : List Char
  arguments : List (List Char)
  bindings : List (List Char × List Char)
  status : Nat
  taken : Option Nat
  buffers : List (List Char)
  input : List Char
  output : Sink
  errors : Sink
  stuck : Bool

namespace Machine

def start (tree : Files.Tree) (name : List Char) (arguments : List (List Char)) : Machine where
  tree := tree
  name := name
  arguments := arguments
  bindings := []
  status := 0
  taken := none
  buffers := [[], []]
  input := []
  output := .buffer 0
  errors := .buffer 1
  stuck := false

def assign (m : Machine) (name value : List Char) : Machine :=
  { m with bindings := (name, value) :: m.bindings.filter fun (n, _) => n ≠ name }

/-- The number of a process has no meaning but as a name for the script itself. -/
def processId : List Char := "1000".toList

/-- The value of a parameter that has one. -/
def parameter? (m : Machine) (name : List Char) : Option (List Char) :=
  match name with
  | ['#'] => some (toString m.arguments.length).toList
  | ['?'] => some (toString m.status).toList
  | ['$'] => some processId
  | ['0'] => some m.name
  | ['-'] => some []
  | ['!'] => none
  | ['@'] => if m.arguments.isEmpty then none else some ([' '].intercalate m.arguments)
  | ['*'] => if m.arguments.isEmpty then none else some ([' '].intercalate m.arguments)
  | _ =>
    if name.all Char.isDigit then m.arguments[Number.digitsValue 0 name - 1]?
    else m.bindings.lookup name

/-- Write to a sink. -/
def emit (m : Machine) (sink : Sink) (text : List Char) : Machine :=
  match sink with
  | .nowhere => m
  | .buffer index => { m with buffers := m.buffers.modify index (· ++ text) }
  | .file path =>
    let before := (m.tree.read path).toOption.getD []
    match m.tree.write path (before ++ toBytes text) with
    | .ok tree => { m with tree }
    | .error _ => m

def say (m : Machine) (text : List Char) : Machine := m.emit m.output text

/-- Complain about a command on a line. -/
def complain (m : Machine) (line : Nat) (text : List Char) : Machine :=
  m.emit m.errors (m.name ++ (s!": {line}: ").toList ++ text ++ ['\n'])

def withStatus (m : Machine) (status : Nat) : Machine := { m with status }

/-! ## Redirections -/

def sink (m : Machine) (stream : Nat) : Sink :=
  if stream = 2 then m.errors else m.output

def setSink (m : Machine) (stream : Nat) (s : Sink) : Machine :=
  if stream = 2 then { m with errors := s } else if stream = 1 then { m with output := s } else m

/-- The file that is always empty and keeps nothing. -/
def nullPath : String := "/dev/null"

/-- Send a stream somewhere else, or take the input from a file; none if that cannot be. -/
def redirect? (m : Machine) (stream : Nat) (direction : Direction) (word : List Char) :
    Option Machine :=
  let path := decoded word
  match direction with
  | .duplicate =>
    match word with
    | ['-'] => some (m.setSink stream .nowhere)
    | ['1'] => some (m.setSink stream m.output)
    | ['2'] => some (m.setSink stream m.errors)
    | _ => none
  | .read =>
    if path = nullPath then some { m with input := [] }
    else
      match m.tree.read path with
      | .ok bytes => some { m with input := ofBytes bytes }
      | .error _ => none
  | .write =>
    if path = nullPath then some (m.setSink stream .nowhere)
    else
      match m.tree.write path [] with
      | .ok tree => some ({ m with tree }.setSink stream (.file path))
      | .error _ => none
  | .append =>
    if path = nullPath then some (m.setSink stream .nowhere)
    else
      match m.tree.write path ((m.tree.read path).toOption.getD []) with
      | .ok tree => some ({ m with tree }.setSink stream (.file path))
      | .error _ => none

/-! ## Utilities -/

/-- What a system error is called by utilities: its message without the number. -/
def errorText (e : Files.SystemError) : List Char :=
  (e.message.toList.takeWhile (· ≠ '(')).reverse.drop 1 |>.reverse

/-- Write the content of files, or of the input. -/
def concatenate (m : Machine) (paths : List (List Char)) : Machine :=
  let paths := if paths.isEmpty then [['-']] else paths
  paths.foldl one (m.withStatus 0)
where
  one (m : Machine) (path : List Char) : Machine :=
    if path = ['-'] then { m.say m.input with input := [] }
    else
      match m.tree.read (decoded path) with
      | .ok bytes => m.say (ofBytes bytes)
      | .error e =>
        let notice := "cat: ".toList ++ path ++ ": ".toList ++ errorText e ++ ['\n']
        (m.emit m.errors notice).withStatus 1

/-- Take files away. With a flag for it, none has to be there. -/
def removeFiles (m : Machine) (words : List (List Char)) : Machine :=
  let (flags, paths) := words.partition fun w => w.head? = some '-'
  let lenient := flags.any fun f => 'f' ∈ f
  let one (m : Machine) (path : List Char) : Machine :=
    match m.tree.resolve (decoded path) with
    | .ok p => { m with tree := m.tree.remove p }
    | .error e =>
      if lenient then m
      else
        (m.emit m.errors ("rm: cannot remove '".toList ++ path ++ "': ".toList ++ errorText e ++
          ['\n'])).withStatus 1
  paths.foldl one (m.withStatus 0)

/-- Copy a file over another; with `move`, the first goes away. -/
def copyFile (m : Machine) (move : Bool) (words : List (List Char)) : Machine :=
  match words.filter fun w => w.head? ≠ some '-' with
  | [source, target] =>
    let result := do
      let bytes ← m.tree.read (decoded source)
      let tree ← m.tree.write (decoded target) bytes
      let place ← tree.resolve (decoded source)
      return if move then tree.remove place else tree
    match result with
    | .ok tree => { m with tree, status := 0 }
    | .error _ => m.withStatus 1
  | _ => m.withStatus 1

/-- Make empty files where there are none. -/
def touchFiles (m : Machine) (paths : List (List Char)) : Machine :=
  let one (m : Machine) (path : List Char) : Machine :=
    let path := decoded path
    if (m.tree.find? path).isSome then m
    else
      match m.tree.write path [] with
      | .ok tree => { m with tree }
      | .error _ => m.withStatus 1
  paths.foldl one (m.withStatus 0)

def makeDirectories (m : Machine) (words : List (List Char)) : Machine :=
  let paths := words.filter fun w => w.head? ≠ some '-'
  { m with tree := paths.foldl (fun t p => t.install (decoded p) .directory) m.tree, status := 0 }

/-- Send a signal to the script itself, which ends it unless the signal is the null one. -/
def signal (m : Machine) (words : List (List Char)) : Machine × Flow :=
  if words.getLast? = some processId then
    if words.head? = some ['-', '0'] then (m.withStatus 0, .onward) else (m, .killed)
  else (m.withStatus 1, .onward)

/-- Read a line of input into variables, the last of which takes the rest of it. -/
def readLine (m : Machine) (names : List (List Char)) : Machine :=
  let names := names.filter fun n => n ≠ ['-', 'r']
  let line := m.input.takeWhile (· ≠ '\n')
  let found := line.length < m.input.length
  let m := { m with input := m.input.drop (line.length + 1), status := if found then 0 else 1 }
  go m names (line.dropWhile isSpace)
where
  isSpace (c : Char) : Bool := c = ' ' || c = '\t'
  trimmed (text : List Char) : List Char := (text.reverse.dropWhile isSpace).reverse
  go (m : Machine) : List (List Char) → List Char → Machine
    | [], _ => m
    | [name], rest => m.assign name (trimmed rest)
    | name :: names, rest =>
      let word := rest.takeWhile fun c => !isSpace c
      go (m.assign name word) names ((rest.drop word.length).dropWhile isSpace)

/-- The number that a word gives a utility, such as a status or a count of loops. -/
def count (words : List (List Char)) (standard : Nat) : Nat :=
  match words with
  | [] => standard
  | word :: _ => ((Arithmetic.number? word).getD 0).toNat

/-- Call a utility. -/
def call (m : Machine) (line : Nat) (name : List Char) (words : List (List Char)) :
    Machine × Flow :=
  let test (words : List (List Char)) : Machine × Flow :=
    match test? m.tree (words.length + 1) words with
    | some true => (m.withStatus 0, .onward)
    | some false => (m.withStatus 1, .onward)
    | none => ((m.complain line (name ++ ": unexpected operator".toList)).withStatus 2, .onward)
  match String.ofList name with
  | ":" => (m.withStatus 0, .onward)
  | "true" => (m.withStatus 0, .onward)
  | "false" => (m.withStatus 1, .onward)
  | "echo" => ((m.say (echoed words)).withStatus 0, .onward)
  | "printf" =>
    match words with
    | [] =>
      ((m.complain line "printf: usage: printf format [arg ...]".toList).withStatus 2, .onward)
    | format :: arguments =>
      let format? := if format = ['-', '-'] then arguments.head? else some format
      let arguments := if format = ['-', '-'] then arguments.drop 1 else arguments
      let (text, fits) := formatted (format?.getD []) arguments
      ((m.say text).withStatus (if fits then 0 else 1), .onward)
  | "test" => test words
  | "[" =>
    if words.getLast? = some [']'] then test words.dropLast
    else ((m.complain line "[: missing ]".toList).withStatus 2, .onward)
  | "exit" => (m.withStatus (count words m.status % 256), .finish)
  | "kill" => m.signal words
  | "break" => (m.withStatus 0, .leave (count words 1))
  | "continue" => (m.withStatus 0, .again (count words 1))
  | "shift" =>
    ({ m with arguments := m.arguments.drop (count words 1), status := 0 }, .onward)
  | "set" =>
    match words with
    | ['-', '-'] :: arguments => ({ m with arguments, status := 0 }, .onward)
    | _ => (m.withStatus 0, .onward)
  | "read" => (m.readLine words, .onward)
  | "cat" => (m.concatenate words, .onward)
  | "rm" => (m.removeFiles words, .onward)
  | "cp" => (m.copyFile false words, .onward)
  | "mv" => (m.copyFile true words, .onward)
  | "touch" => (m.touchFiles words, .onward)
  | "mkdir" => (m.makeDirectories words, .onward)
  | "sleep" => (m.withStatus 0, .onward)
  | "export" => (m.withStatus 0, .onward)
  | "unset" =>
    ({ m with bindings := m.bindings.filter fun (n, _) => n ∉ words, status := 0 }, .onward)
  | _ => ((m.complain line (name ++ ": not found".toList)).withStatus 127, .onward)

end Machine

end CorpusAnnotator.Shell
