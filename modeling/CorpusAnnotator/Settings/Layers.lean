import CorpusAnnotator.Settings.KeyPath
import CorpusAnnotator.Toml.Document
import CorpusAnnotator.Files.Tree

/-! Layers of settings. The lowest are the defaults; sources such as a file and the environment are
laid over one another and then over the defaults; overrides come last. -/
namespace CorpusAnnotator.Settings

/-- What one source says: keys with values. -/
abbrev Layer := List (String × Value)

def Layer.over (layer : Layer) (root : Value) : Value :=
  layer.foldl (fun root (key, v) => setKey key v root) root

/-- All layers in one table. -/
def resolve (defaults : Layer) (sources : List Layer) (overrides : Layer) : Value :=
  let collected := sources.foldl (fun root layer => layer.over root) (.table [])
  overrides.over (Layer.over collected.entries (defaults.over (.table [])))

/-! ## The environment -/

/-- Put a point in place of every two low lines. -/
def dotted : List Char → List Char
  | '_' :: '_' :: rest => '.' :: dotted rest
  | c :: rest => c :: dotted rest
  | [] => []

/-- The key that a variable sets: its name in small letters after the mark of this program, with two
low lines between the names of the path. -/
def variableKey? (mark name : String) : Option String :=
  let name := (small name).toList
  if mark.toList.isPrefixOf name then some (String.ofList (dotted (name.drop mark.length)))
  else none

def environmentLayer (mark : String) (environment : List (String × String)) : Layer :=
  environment.filterMap fun (name, value) =>
    (variableKey? mark name).map fun key => (key, .ofText value)

/-! ## The file -/

/-- Why there is no layer from a file. -/
inductive FileError where
  /-- There is no such file, or none of a known format, or its bytes are not text. -/
  | unreadable
  | malformed
  deriving Repr, DecidableEq

/-- The part of a file's name after its last point, if something stands before that point. -/
def extension? (name : List Char) : Option (List Char) :=
  let reversed := name.reverse
  match reversed.dropWhile (· ≠ '.') with
  | _ :: before => if before.isEmpty then none else some (reversed.takeWhile (· ≠ '.')).reverse
  | [] => none

/-- A path without the steps at its end that stay where they are. -/
def withoutStays (path : List Char) : List Char :=
  let steps := (Text.split '/' path).reverse.dropWhile fun s => s = [] ∨ s = ['.']
  Text.unsplit '/' steps.reverse

/-- The file that a path names: the very file, which has to have the extension of its format, or
else the file of that name with the extension added. -/
def locateFile (tree : Files.Tree) (path : String) : Option String :=
  let steps := Text.split '/' path.toList
  if tree.isFile path then
    if extension? (steps.getLast?.getD []) = some "toml".toList then some path else none
  else
    let base := withoutStays path.toList
    let last := (Text.split '/' base).getLast?.getD []
    let candidate := String.ofList base ++ ".toml"
    if last = [] ∨ last = ['.', '.'] then none
    else if tree.isFile candidate then some candidate
    else none

def fileLayer (tree : Files.Tree) (path : String) : Except FileError Layer :=
  match locateFile tree path with
  | none => .error .unreadable
  | some found =>
    match tree.readText found with
    | .error _ => .error .unreadable
    | .ok text =>
      match Toml.document? text with
      | none => .error .malformed
      | some entries => .ok (Value.ofTomlEntries entries)

end CorpusAnnotator.Settings
