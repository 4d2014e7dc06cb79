import CorpusAnnotator.Number.Integer

/-! Batches of documents as byte matrices. Documents differ in length, so a matrix has one row for
each, padded with zeros to a common width, and the lengths stand beside it. -/
namespace CorpusAnnotator

/-- A document is an opaque string of bytes. -/
abbrev Document := List UInt8

/-- A matrix of bytes, row after row, with the unpadded length of each row. Shape and lengths are
the signed numbers that a tensor carries. -/
structure Tensor where
  shape : List Int
  bytes : List UInt8
  lengths : List Int
  deriving Repr, DecidableEq

namespace Tensor

/-- The length of the longest document, and at least one, so that no matrix is degenerate. -/
def width (documents : List Document) : Nat :=
  documents.foldl (fun w d => max w d.length) 1

/-- A document as a row. -/
def padded (width : Nat) (d : Document) : List UInt8 :=
  d ++ List.replicate (width - d.length) 0

def pack (documents : List Document) : Tensor where
  shape := [documents.length, width documents]
  bytes := documents.flatMap (padded (width documents))
  lengths := documents.map fun d => d.length

/-- Why a tensor is no batch of documents. -/
inductive Error where
  | badShape (shape : List Int)
  | badSize (held : Nat) (shape : List Int) (needed : Nat)
  | badCount (lengths rows : Nat)
  | badLength (row : Nat) (length : Int) (width : Nat)
  /-- The number of bytes that a shape asks for is no word. -/
  | overflow
  /-- A row that would end past the last byte. -/
  | outOfBounds (finish held : Nat)
  deriving Repr, DecidableEq

def shownShape (shape : List Int) : String :=
  "[" ++ String.intercalate ", " (shape.map toString) ++ "]"

def Error.message : Error → String
  | .badShape shape =>
    "expected a [rows, width] annotation tensor, got shape " ++ shownShape shape
  | .badSize held shape needed =>
    s!"annotation tensor holds {held} bytes, shape " ++ shownShape shape ++ s!" needs {needed}"
  | .badCount lengths rows => s!"got {lengths} lengths for {rows} annotated rows"
  | .badLength row length width => s!"row {row} has length {length} outside [0, {width}]"
  | .overflow => "attempt to multiply with overflow"
  | .outOfBounds finish held =>
    s!"range end index {finish} out of range for slice of length {held}"

/-- The product of two words, where it is a word. -/
def product (a b : Nat) : Except Error Nat :=
  if a * b < Number.wordSize then .ok (a * b) else .error .overflow

/-- The documents of rows, the first of which is number `row`. -/
def unpackRows (bytes : List UInt8) (width : Nat) : (row : Nat) → List Int →
    Except Error (List Document)
  | _, [] => .ok []
  | row, length :: lengths =>
    if length < 0 ∨ (width : Int) < length then .error (.badLength row length width)
    else do
      let start ← product row width
      let finish := start + length.toNat
      if bytes.length < finish then .error (.outOfBounds finish bytes.length)
      else
        let rest ← unpackRows bytes width (row + 1) lengths
        return (bytes.drop start).take length.toNat :: rest

def unpack (t : Tensor) : Except Error (List Document) :=
  match t.shape with
  | [.ofNat rows, .ofNat width] => do
    let needed ← product rows width
    if t.bytes.length ≠ needed then .error (.badSize t.bytes.length t.shape needed)
    else if t.lengths.length ≠ rows then .error (.badCount t.lengths.length rows)
    else unpackRows t.bytes width 0 t.lengths
  | shape => .error (.badShape shape)

end Tensor

end CorpusAnnotator
