import CorpusAnnotator.Corpus.Write
import CorpusAnnotator.Number.Integer

/-! Synthetic corpora: archives of random documents, for measuring how fast documents can be
annotated. -/
namespace CorpusAnnotator.Corpus

/-- What to make: the path of the archive, the number of documents, and the bounds of their
lengths. -/
structure SyntheticPlan where
  path : String
  count : Nat
  least : Nat
  most : Nat
  deriving Repr, DecidableEq

namespace SyntheticPlan

/-- The number that an argument gives, or a standard one if it gives none. -/
def numberOr (standard : Nat) : Option String → Nat
  | none => standard
  | some argument =>
    match Number.readNat64 argument.toList with
    | .ok n => n
    | .error _ => standard

/-- The plan of a command line: path, count, least and greatest length, of which the last ones may
be left out. -/
def ofArguments (arguments : List String) : SyntheticPlan where
  path := arguments[0]?.getD "synthetic.zip"
  count := numberOr 1000 arguments[1]?
  least := numberOr 64 arguments[2]?
  most := numberOr 4096 arguments[3]?

inductive Error where
  | noLength (least most : Nat)
  | uncreatable (path : String) (error : Files.SystemError)
  deriving Repr, DecidableEq

def Error.failure : Error → Failure
  | .noLength least most => .plain s!"MIN_LEN {least} exceeds MAX_LEN {most}"
  | .uncreatable path error => (WriteFault.uncreatable path error).failure

/-- Random bytes. -/
def randomBytes : (length : Nat) → StdGen → List UInt8 × StdGen
  | 0, g => ([], g)
  | length + 1, g =>
    let (b, g) := randNat g 0 255
    let (rest, g) := randomBytes length g
    (UInt8.ofNat b :: rest, g)

/-- Random documents with lengths between the bounds. -/
def randomDocuments (least most : Nat) : (count : Nat) → StdGen → List Document
  | 0, _ => []
  | count + 1, g =>
    let (length, g) := randNat g least most
    let (document, g) := randomBytes length g
    document :: randomDocuments least most count g

/-- The name of entry `index` of a synthetic corpus. -/
def entryName (index : Nat) : String :=
  s!"doc.{index}"

/-- Write the archive of a plan. Nothing is written if no length fits the bounds. -/
def write (p : SyntheticPlan) (g : StdGen) (tree : Files.Tree) : Except Error Files.Tree :=
  if p.most < p.least then .error (.noLength p.least p.most)
  else
    let documents := randomDocuments p.least p.most p.count g
    let bytes := Archive.encode (documents.mapIdx fun index document => (entryName index, document))
    (tree.write p.path bytes).mapError (.uncreatable p.path)

end SyntheticPlan

end CorpusAnnotator.Corpus
