import CorpusAnnotator.Tensor

/-! Corpora: ordered collections of documents. The place of a document in the order is its identity:
the annotation of document `i` is annotation `i`. -/
namespace CorpusAnnotator

/-- Documents, and the path or pattern that they come from. -/
structure Corpus where
  source : String
  documents : List Document
  deriving Repr, DecidableEq

/-- The number of bytes in documents. -/
def byteCount (documents : List Document) : Nat :=
  documents.flatten.length

/-- Consecutive parts of `size` items; the last may be shorter, and none is empty. -/
def chunks {α : Type} (size : Nat) (items : List α) : List (List α) :=
  match size, items with
  | 0, _ => []
  | _, [] => []
  | size + 1, item :: rest =>
    (item :: rest.take size) :: chunks (size + 1) (rest.drop size)
termination_by items.length
decreasing_by simp only [List.length_drop, List.length_cons]; omega

namespace Corpus

def size (c : Corpus) : Nat := c.documents.length

def isEmpty (c : Corpus) : Bool := c.documents.isEmpty

def totalBytes (c : Corpus) : Nat := byteCount c.documents

/-- Batches of a size have to have one. -/
inductive BatchError where
  | zeroSize
  deriving Repr, DecidableEq

def BatchError.message : BatchError → String
  | .zeroSize => "chunk size must be non-zero"

/-- The corpus in consecutive batches. -/
def batches (c : Corpus) (size : Nat) : Except BatchError (List (List Document)) :=
  if size = 0 then .error .zeroSize else .ok (chunks size c.documents)

end Corpus

end CorpusAnnotator
