import CorpusAnnotator.Entries
import CorpusAnnotator.Settings.Value
import CorpusAnnotator.Text.Taken

/-! Paths of keys such as `a.b[2]`, and setting the value at a path. Names of keys are written
small; capitals in them make no difference. -/
namespace CorpusAnnotator.Settings

open Text (Taken Left)

inductive Step where
  | child (name : String)
  | item (index : Int)
  deriving Repr, DecidableEq

structure KeyPath where
  first : String
  steps : List Step
  deriving Repr, DecidableEq

def small (name : String) : String :=
  String.ofList (Number.lower name.toList)

/-! ## Reading -/

def isNameChar (c : Char) : Bool :=
  c.isAlphanum || c = '_' || c = '-' || c = ' '

def name? (text : List Char) : Option (Taken String text) :=
  match text with
  | [] => none
  | c :: rest =>
    if isNameChar c then
      let t := Left.while isNameChar rest
      some ⟨String.ofList (c :: t.value), t.rest, Nat.lt_succ_of_le t.notLonger⟩
    else none

/-- A whole number with blanks around it, up to the closing bracket. -/
def index? (text : List Char) : Option (Taken Int text) :=
  let inside := text.takeWhile (· ≠ ']')
  match h : text.dropWhile (· ≠ ']') with
  | [] => none
  | _ :: rest =>
    let isGap (c : Char) : Bool := c = ' ' || c = '\t'
    let digits := ((inside.dropWhile isGap).reverse.dropWhile isGap).reverse
    match Number.readInt64 digits with
    | .ok n =>
      some ⟨n, rest, by
        have := (List.dropWhile_sublist (· ≠ ']') (l := text)).length_le
        rw [h] at this
        simp at this
        omega⟩
    | .error _ => none

/-- The steps after the first name, up to the end. -/
def steps? (text : List Char) : Option (List Step) :=
  match text with
  | [] => some []
  | '.' :: rest =>
    match name? rest with
    | none => none
    | some ⟨name, rest, _⟩ => (steps? rest).map (.child name :: ·)
  | '[' :: rest =>
    match index? rest with
    | none => none
    | some ⟨n, rest, _⟩ => (steps? rest).map (.item n :: ·)
  | _ => none
termination_by text.length
decreasing_by all_goals (simp only [List.length_cons]; omega)

/-- The path that a text spells. -/
def KeyPath.read? (text : String) : Option KeyPath := do
  let ⟨first, rest, _⟩ ← name? text.toList
  return ⟨first, ← steps? rest⟩

/-! ## Setting -/

mutual

/-- Set the value of a name. What is no table becomes one first. A table does not replace the value
that is there but is laid over it, name by name; an empty one leaves it as it is. -/
def setName (name : String) : Value → Value → Value
  | .table incoming, root =>
    let entries := root.entries
    let there := (entries.lookup (small name)).getD (.table [])
    .table (Entries.put (small name) (setNames incoming there) entries)
  | v, root => .table (Entries.put (small name) v root.entries)

def setNames : List (String × Value) → Value → Value
  | [], root => root
  | (name, v) :: rest, root => setNames rest (setName name v root)

end

/-- The place that an index names in a list; from the end when it is negative. -/
def position (index : Int) (length : Nat) : Nat :=
  if 0 ≤ index then index.toNat else length - index.natAbs

/-- Change one item of a list, which grows as far as needed. -/
def changeItem (index : Int) (f : Value → Value) (items : List Value) : List Value :=
  let i := position index items.length
  let items := items ++ List.replicate (i + 1 - items.length) .nothing
  items.modify i f

/-- Change the value that steps lead to; what is no table, or no list, becomes one on the way. -/
def change (f : Value → Value) : List Step → Value → Value
  | [], v => f v
  | .child name :: rest, v =>
    let there := (v.entries.lookup (small name)).getD .nothing
    .table (Entries.put (small name) (change f rest there) v.entries)
  | .item index :: rest, v => .list (changeItem index (change f rest) v.items)

def setStep (v : Value) : Step → Value → Value
  | .child name, parent => setName name v parent
  | .item index, parent => .list (changeItem index (fun _ => v) parent.items)

def KeyPath.set (p : KeyPath) (v root : Value) : Value :=
  match p.steps.getLast? with
  | none => setName p.first v root
  | some last => change (setStep v last) (.child p.first :: p.steps.dropLast) root

/-- Set the value of a key, which is a path if it reads as one and else a plain name. -/
def setKey (key : String) (v root : Value) : Value :=
  match KeyPath.read? key with
  | some p => p.set v root
  | none => setName key v root

end CorpusAnnotator.Settings
