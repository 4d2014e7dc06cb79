import CorpusAnnotator.Toml.Reader

/-! The table that a document describes: its statements carried out one after another. -/
namespace CorpusAnnotator.Toml

/-- A document under construction: its root, and the path of the heading in force. -/
structure Draft where
  root : Table
  current : List String

def Draft.empty : Draft := ⟨.written, []⟩

def Draft.add (d : Draft) : Statement → Option Draft
  | .assign key v =>
    (d.root.change false (Table.add key.path key.last v) d.current).map fun root => { d with root }
  | .heading key =>
    (d.root.change false (Table.openTable key.last) key.path).map fun root => ⟨root, key.toList⟩
  | .element key =>
    (d.root.change false (Table.openElement key.last) key.path).map fun root => ⟨root, key.toList⟩

/-- The entries of the document that a text holds. A byte order mark at its start is skipped. -/
def document? (text : List Char) : Option (List (String × Value)) := do
  let text := if text.head? = some '\ufeff' then text.drop 1 else text
  let statements ← statements? text
  let draft ← statements.foldlM Draft.add .empty
  return Item.toEntries draft.root.entries

end CorpusAnnotator.Toml
