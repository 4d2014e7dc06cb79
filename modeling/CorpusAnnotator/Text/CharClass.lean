/-! Classes of characters given by the code points at which membership changes. A table of
ranges is then one increasing list of numbers, and a character belongs to the class when an odd
number of them lies at or below its code point. -/
namespace CorpusAnnotator.Text

/-- A class of characters: `edges` are the code points, in increasing order, at which membership
changes from its neighbour below. Code point zero has no neighbour below and is outside unless it
is an edge itself. -/
structure CharClass where
  edges : List Nat
  deriving Repr, DecidableEq

namespace CharClass

/-- Walk up the edges that `n` has passed, changing sides at each. -/
def side : List Nat → Nat → Bool → Bool
  | [], _, inside => inside
  | edge :: edges, n, inside => if n < edge then inside else side edges n !inside

def contains (k : CharClass) (c : Char) : Bool :=
  side k.edges c.toNat false

end CharClass

end CorpusAnnotator.Text
