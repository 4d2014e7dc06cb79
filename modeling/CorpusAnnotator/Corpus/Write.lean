import CorpusAnnotator.Archive.Writer
import CorpusAnnotator.Corpus.Basic
import CorpusAnnotator.Event
import CorpusAnnotator.Failure
import CorpusAnnotator.Files.Tree

/-! Writing documents as an archive, one entry for each in their order. -/
namespace CorpusAnnotator.Corpus

/-- The name of entry `index` of an annotated corpus. -/
def entryName (index : Nat) : String :=
  s!"test.{index}"

/-- The archive of annotated documents. -/
def archiveOf (documents : List Document) : List UInt8 :=
  Archive.encode (documents.mapIdx fun index document => (entryName index, document))

/-- Why documents are not written. All but the first are found with the file already begun. -/
inductive WriteFault where
  | uncreatable (path : String) (error : Files.SystemError)
  | unadded (index : Nat) (path : String) (error : Files.SystemError)
  | unwritten (error : Files.SystemError)
  | unfinished (path : String) (error : Files.SystemError)
  deriving Repr, DecidableEq

def WriteFault.failure : WriteFault → Failure
  | .uncreatable path error => .ofSystem ("Failed to create " ++ path) error
  | .unadded index path error => .ofSystem (s!"Failed to add entry {index} to " ++ path) error
  | .unwritten error => ⟨[], some (.system error)⟩
  | .unfinished path error => .ofSystem ("Failed to finalize " ++ path) error

/-- A write that breaks off: why, and the files that it leaves. -/
structure WriteError where
  fault : WriteFault
  left : Files.Tree
  deriving Repr, DecidableEq

def WriteError.failure (e : WriteError) : Failure := e.fault.failure

/-- What is said about a document too long for the header of an entry. -/
def tooLongForEntry : Files.SystemError :=
  .badStream "Large file option has not been set"

/-- Add documents, the first of which is number `index`, as entries behind `offset` bytes. An entry
is a header and its document, and both have to find room in the file. The files that hold the first
bytes of the archive, and no more of it, are `begun`; what is left of an entry that is not added is
nothing. -/
def addEntries (begun : Nat → Files.Tree) (path : String) (index offset : Nat) :
    List Document → Except WriteError Unit
  | [] => .ok ()
  | d :: rest =>
    let name := Text.Utf8.encode (entryName index).toList
    let start := offset + Archive.LocalHeader.fixedSize + name.length
    if Files.Tree.largestFile < start then
      .error ⟨.unadded index path .fileTooLarge, begun offset⟩
    else if Files.Tree.largestFile < start + d.length then
      .error ⟨.unwritten .fileTooLarge, begun offset⟩
    else if Archive.longOffset < d.length then .error ⟨.unwritten tooLongForEntry, begun offset⟩
    else addEntries begun path (index + 1) (start + d.length) rest

/-- Write annotated documents over whatever the path held. That is lost as soon as the file has been
created, so a write that fails later leaves the beginning of the archive in its place. -/
def write (tree : Files.Tree) (path : String) (documents : List Document) :
    Except WriteError Files.Tree := do
  let written ← (tree.create path).mapError fun error => ⟨.uncreatable path error, tree⟩
  let bytes := archiveOf documents
  let begun (size : Nat) : Files.Tree := written (bytes.take size)
  addEntries begun path 0 0 documents
  if Files.Tree.largestFile < bytes.length then
    throw ⟨.unfinished path .fileTooLarge, begun Files.Tree.largestFile⟩
  else return written bytes

def writeEvents (path : String) (documents : List Document) :
    Except WriteError Files.Tree → List Event
  | .error _ => []
  | .ok _ =>
    [.info "Wrote annotated docs" [("docs", toString documents.length), ("path", path)]]

end CorpusAnnotator.Corpus
