import CorpusAnnotator.Archive.Reader
import CorpusAnnotator.Corpus.Basic
import CorpusAnnotator.Event
import CorpusAnnotator.Failure
import CorpusAnnotator.Files.Glob

/-! Reading a corpus. A source that is an archive gives the content of its entries; any other is a
file pattern and gives the content of the files that match. Either way the documents come all
together or not at all. -/
namespace CorpusAnnotator.Corpus

inductive ReadError where
  | badEntry (index : Nat) (source : String) (error : Archive.EntryError)
  | unreadableEntry (name source : String) (error : Archive.EntryError)
  | badPattern (source : String) (error : Files.Glob.Error)
  | noMatch (source : String)
  deriving Repr, DecidableEq

def ReadError.failure : ReadError → Failure
  | .badEntry index source error =>
    ⟨[s!"Failed to open entry {index} of " ++ source], some (.archive error.message)⟩
  | .unreadableEntry name source error =>
    .ofSystem ("Failed to read entry '" ++ name ++ "' of " ++ source) (.badStream error.message)
  | .badPattern source error =>
    ⟨["Invalid corpus pattern " ++ source], some (.pattern error.message)⟩
  | .noMatch source =>
    .plain ("Corpus " ++ source ++ " is neither a zip archive nor a pattern matching any file")

/-- The archive that a source names, if it names one. -/
def archive? (tree : Files.Tree) (source : String) : Option (List Archive.Entry) :=
  match tree.read source with
  | .ok bytes => Archive.decode? bytes
  | .error _ => none

/-- The documents of archive entries, the first of which is number `index`. Directories hold none,
but have to be in order like all others. -/
def ofEntries (source : String) (index : Nat) :
    List Archive.Entry → Except ReadError (List Document)
  | [] => .ok []
  | e :: rest => do
    e.open.mapError (.badEntry index source)
    if e.isDirectory then ofEntries source (index + 1) rest
    else
      let document ← e.content.mapError (.unreadableEntry e.name source)
      let documents ← ofEntries source (index + 1) rest
      return document :: documents

/-- The bytes of the file at a place, if a file is there. -/
def fileAt? (tree : Files.Tree) (p : Files.Place) : Option Document :=
  match tree.node? p with
  | some (.file bytes _) => some bytes
  | _ => none

/-- The documents of the files that match a pattern, of which there has to be one at least. -/
def ofPattern (tree : Files.Tree) (source : String) : Except ReadError (List Document) := do
  let pattern ← (Files.Glob.Pattern.read source).mapError (.badPattern source)
  let documents := (pattern.expand tree).filterMap (fileAt? tree)
  if documents.isEmpty then throw (.noMatch source) else return documents

def readDocuments (tree : Files.Tree) (source : String) : Except ReadError (List Document) :=
  match archive? tree source with
  | some entries => ofEntries source 0 entries
  | none => ofPattern tree source

/-- The corpus at a path or of a pattern. -/
def read (tree : Files.Tree) (source : String) : Except ReadError Corpus :=
  (readDocuments tree source).map (Corpus.mk source)

/-- What is told about a reading. Only an archive can turn out empty. -/
def readEvents (source : String) : Except ReadError Corpus → List Event
  | .error _ => []
  | .ok corpus =>
    let warnings : List Event :=
      if corpus.isEmpty then [.warning "Zip archive contains no documents" [("path", source)]]
      else []
    warnings ++ [.info "Read corpus" [("docs", toString corpus.size), ("source", source)]]

end CorpusAnnotator.Corpus
