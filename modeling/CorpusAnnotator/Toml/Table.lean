import CorpusAnnotator.Entries
import CorpusAnnotator.Toml.Value

/-! Tables under construction. Every table remembers how it came about, because that decides what
may still be added to it. -/
namespace CorpusAnnotator.Toml

/-- How a table came about: by a heading of its own, as a step on the way of a heading, or as a step
of a dotted key. -/
inductive Origin where
  | headed
  | passed
  | dotted
  deriving Repr, DecidableEq

/-- What stands under a name while a document is built. -/
inductive Item where
  | value (v : Value)
  | table (origin : Origin) (entries : List (String × Item))
  /-- Tables that headings with two brackets have begun; the last one is still open. -/
  | tables (elements : List (List (String × Item)))
  deriving Repr

/-- A table under construction. -/
structure Table where
  origin : Origin
  entries : List (String × Item)
  deriving Repr

namespace Table

/-- An empty table with a heading or braces of its own. -/
def written : Table := ⟨.headed, []⟩

def find? (t : Table) (name : String) : Option Item := t.entries.lookup name

/-- Replace the item under a name, or add it at the end. -/
def put (t : Table) (name : String) (i : Item) : Table :=
  { t with entries := Entries.put name i t.entries }

/-- Change the table that a path leads to, making tables on the way. A path that belongs to a dotted
key cannot pass a table that has a heading. -/
def change (dottedKey : Bool) (f : Table → Option Table) : List String → Table → Option Table
  | [], t => f t
  | name :: path, t =>
    match t.find? name with
    | none =>
      (change dottedKey f path ⟨if dottedKey then .dotted else .passed, []⟩).map fun s =>
        t.put name (.table s.origin s.entries)
    | some (.value _) => none
    | some (.table origin entries) =>
      if dottedKey && origin = .headed then none
      else
        (change dottedKey f path ⟨origin, entries⟩).map fun s =>
          t.put name (.table s.origin s.entries)
    | some (.tables elements) =>
      match elements.getLast? with
      | none => none
      | some last =>
        (change dottedKey f path ⟨.headed, last⟩).map fun s =>
          t.put name (.tables (elements.dropLast ++ [s.entries]))

/-- Add a value under a free name. A dotted key adds only to tables that dotted keys have made, and
any other key to none of those. -/
def assign (dottedKey : Bool) (name : String) (v : Value) (t : Table) : Option Table :=
  if (t.origin = .dotted) ≠ dottedKey then none
  else if (t.find? name).isSome then none
  else some (t.put name (.value v))

/-- Add a value under a key, which is dotted when its path is not empty. -/
def add (path : List String) (last : String) (v : Value) (t : Table) : Option Table :=
  t.change true (assign (!path.isEmpty) last v) path

/-- Open a table: the name is free, or headings have passed it on their way. -/
def openTable (name : String) (t : Table) : Option Table :=
  match t.find? name with
  | none => some (t.put name (.table .headed []))
  | some (.table .passed entries) => some (t.put name (.table .headed entries))
  | some _ => none

/-- Open one more table of a list of tables. -/
def openElement (name : String) (t : Table) : Option Table :=
  match t.find? name with
  | none => some (t.put name (.tables [[]]))
  | some (.tables elements) => some (t.put name (.tables (elements ++ [[]])))
  | some _ => none

end Table

mutual

/-- The finished value of an item. -/
def Item.toValue : Item → Value
  | .value v => v
  | .table _ entries => .table (Item.toEntries entries)
  | .tables elements => .list (Item.toTables elements)

def Item.toEntries : List (String × Item) → List (String × Value)
  | [] => []
  | (name, i) :: rest => (name, i.toValue) :: Item.toEntries rest

def Item.toTables : List (List (String × Item)) → List Value
  | [] => []
  | entries :: rest => .table (Item.toEntries entries) :: Item.toTables rest

end

end CorpusAnnotator.Toml
