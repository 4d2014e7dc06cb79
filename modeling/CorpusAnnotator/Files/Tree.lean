import CorpusAnnotator.Files.SystemError
import CorpusAnnotator.Text.Split
import CorpusAnnotator.Text.Utf8

/-! Files and directories, as a value. A place is a list of names below a base; a tree says what
stands at each place, and reading and writing are functions on trees. -/
namespace CorpusAnnotator.Files

/-- Where a list of names starts: a number of levels above the working directory, or the root. -/
inductive Base where
  | above (levels : Nat)
  | root
  deriving Repr, DecidableEq

/-- A place, with the innermost name first. -/
structure Place where
  base : Base
  names : List String
  deriving Repr, DecidableEq

namespace Place

/-- The working directory. -/
def here : Place := ⟨.above 0, []⟩

def child (p : Place) (name : String) : Place :=
  { p with names := name :: p.names }

/-- The place one level up; the root is above itself. -/
def parent (p : Place) : Place :=
  match p.names, p.base with
  | _ :: names, base => ⟨base, names⟩
  | [], .above n => ⟨.above (n + 1), []⟩
  | [], .root => p

end Place

/-- What stands at a place. -/
inductive Node where
  | directory
  | file (bytes : List UInt8) (executable : Bool)
  deriving Repr, DecidableEq

/-- What stands at each place that has been made; bases are directories from the start. -/
structure Tree where
  nodes : List (Place × Node)
  deriving Repr, DecidableEq

namespace Tree

def empty : Tree := ⟨[]⟩

def node? (t : Tree) (p : Place) : Option Node :=
  if p.names.isEmpty then some .directory else t.nodes.lookup p

/-- Replace what stands at a place, or add it. -/
def put (t : Tree) (p : Place) (n : Node) : Tree :=
  ⟨replace t.nodes⟩
where
  replace : List (Place × Node) → List (Place × Node)
    | [] => [(p, n)]
    | (q, m) :: rest => if q = p then (p, n) :: rest else (q, m) :: replace rest

theorem lookup_replace (p q : Place) (n : Node) (nodes : List (Place × Node)) :
    (put.replace p n nodes).lookup q = if q = p then some n else nodes.lookup q := by
  induction nodes with
  | nil =>
    by_cases h : q = p
    · simp [put.replace, h]
    · have hne : (q == p) = false := by simpa using h
      simp [put.replace, List.lookup_cons, hne, h]
  | cons e nodes ih =>
    obtain ⟨r, m⟩ := e
    by_cases hr : r = p
    · subst hr
      by_cases h : q = r
      · simp [put.replace, h]
      · have hne : (q == r) = false := by simpa using h
        simp [put.replace, List.lookup_cons, hne, h]
    · by_cases h : q = r
      · subst h
        simp [put.replace, hr]
      · have hne : (q == r) = false := by simpa using h
        simp [put.replace, hr, List.lookup_cons, hne, ih]

/-- After something is put at a place, just that stands there, and all else as before. -/
theorem node?_put (t : Tree) (p q : Place) (n : Node) (h : q.names ≠ []) :
    (t.put p n).node? q = if q = p then some n else t.node? q := by
  have hne : q.names.isEmpty = false := by simpa using h
  simp [node?, hne, put, lookup_replace]

def remove (t : Tree) (p : Place) : Tree :=
  ⟨t.nodes.filter fun (q, _) => q ≠ p⟩

/-- The names directly inside a place, in increasing order. -/
def names (t : Tree) (p : Place) : List String :=
  let inside := t.nodes.filterMap fun (q, _) =>
    match q.names with
    | name :: names => if q.base = p.base ∧ names = p.names then some name else none
    | [] => none
  inside.mergeSort fun a b => a ≤ b

/-! ## Paths -/

/-- The longest name, in bytes. -/
def longestName : Nat := 255

/-- The longest path, in bytes. -/
def longestPath : Nat := 4095

/-- The most bytes that a file can hold: places in it are signed words. -/
def largestFile : Nat := 0x7fffffffffffffff

/-- Take one step along a path, from a place that has to be a directory. The steps `.` and the
empty one stay; any other but `..` has to lead to something. -/
def enter (t : Tree) (p : Place) (name : String) : Except SystemError Place :=
  match t.node? p with
  | none => .error .notFound
  | some (.file _ _) => .error .notDirectory
  | some .directory =>
    if name = "" ∨ name = "." then .ok p
    else if name = ".." then .ok p.parent
    else if longestName < name.utf8ByteSize then .error .nameTooLong
    else
      match t.node? (p.child name) with
      | none => .error .notFound
      | some _ => .ok (p.child name)

/-- The place a path starts from and the steps it takes. -/
def route (path : String) : Except SystemError (Place × List String) :=
  let text := path.toList
  if text = [] then .error .notFound
  else if '\x00' ∈ text then .error .nullInName
  else if longestPath < path.utf8ByteSize then .error .nameTooLong
  else
    let start : Place := if text.head? = some '/' then ⟨.root, []⟩ else .here
    .ok (start, (Text.split '/' text).map String.ofList)

/-- Follow a path to something that exists. -/
def resolve (t : Tree) (path : String) : Except SystemError Place := do
  let (start, steps) ← route path
  steps.foldlM t.enter start

def find? (t : Tree) (path : String) : Option Node :=
  match t.resolve path with
  | .ok p => t.node? p
  | .error _ => none

def isFile (t : Tree) (path : String) : Bool :=
  match t.find? path with
  | some (.file _ _) => true
  | _ => false

def isDirectory (t : Tree) (path : String) : Bool :=
  match t.find? path with
  | some .directory => true
  | _ => false

/-- The bytes of a file. -/
def read (t : Tree) (path : String) : Except SystemError (List UInt8) := do
  let p ← t.resolve path
  match t.node? p with
  | some (.file bytes _) => return bytes
  | some .directory => throw .isDirectory
  | none => throw .notFound

/-- The characters of a file that holds text. -/
def readText (t : Tree) (path : String) : Except SystemError (List Char) := do
  match Text.Utf8.decode? (← t.read path) with
  | some chars => return chars
  | none => throw .notText

/-- The place that a file of this path has or would have. The directory it lies in has to exist,
and its last step has to be a name. -/
def target (t : Tree) (path : String) : Except SystemError Place := do
  let (start, steps) ← route path
  let p ← steps.dropLast.foldlM t.enter start
  match t.node? p with
  | none => throw .notFound
  | some (.file _ _) => throw .notDirectory
  | some .directory =>
    let name := steps.getLast?.getD ""
    if name = "" ∨ name = "." ∨ name = ".." then throw .isDirectory
    else if longestName < name.utf8ByteSize then throw .nameTooLong
    else return p.child name

/-- Begin a file, whose content is lost if it exists. What comes of it are the files as they are
when some bytes have been written to it. -/
def create (t : Tree) (path : String) : Except SystemError (List UInt8 → Tree) := do
  let p ← t.target path
  match t.node? p with
  | some .directory => throw .isDirectory
  | some (.file _ executable) => return fun bytes => t.put p (.file bytes executable)
  | none => return fun bytes => t.put p (.file bytes false)

/-- Write a file, replacing its content if it exists. -/
def write (t : Tree) (path : String) (bytes : List UInt8) : Except SystemError Tree :=
  (t.create path).map fun written => written bytes

/-! ## Laying out a tree -/

/-- Step into a directory, which is made if nothing is there. -/
def enterMaking (t : Tree) (p : Place) (name : String) : Tree × Place :=
  if name = "" ∨ name = "." then (t, p)
  else if name = ".." then (t, p.parent)
  else
    match t.node? (p.child name) with
    | some _ => (t, p.child name)
    | none => (t.put (p.child name) .directory, p.child name)

/-- Put a node at a path and make the directories above it. -/
def install (t : Tree) (path : String) (n : Node) : Tree :=
  let text := path.toList
  let start : Place := if text.head? = some '/' then ⟨.root, []⟩ else .here
  let steps := (Text.split '/' text).map String.ofList
  let (t, p) := steps.dropLast.foldl (fun (t, p) name => t.enterMaking p name) (t, start)
  let name := steps.getLast?.getD ""
  match n with
  | .directory => (t.enterMaking p name).1
  | .file _ _ => if name = "" then t else t.put (p.child name) n

end Tree

/-- A path with a name added below it. -/
def joinPath (path name : String) : String :=
  if path = "" || path.endsWith "/" then path ++ name else path ++ "/" ++ name

end CorpusAnnotator.Files
