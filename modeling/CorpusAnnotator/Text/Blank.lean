import CorpusAnnotator.Text.CharClass

/-! Blank characters: those with the property White_Space. -/
namespace CorpusAnnotator.Text

/-- Tab to carriage return, space, next line, no-break space, ogham space, the typographic
spaces, line and paragraph separator, narrow no-break space, mathematical and ideographic
space. -/
def blanks : CharClass where
  edges :=
    [9, 14, 32, 33, 133, 134, 160, 161, 5760, 5761, 8192, 8203, 8232, 8234, 8239, 8240, 8287,
     8288, 12288, 12289]

def isBlank (c : Char) : Bool :=
  if c.toNat < 128 then c == ' ' || (9 ≤ c.toNat && c.toNat ≤ 13) else blanks.contains c

/-- Drop the blanks at the end. -/
def trimEnd (cs : List Char) : List Char :=
  (cs.reverse.dropWhile isBlank).reverse

/-- Drop the blanks at both ends. -/
def trim (cs : List Char) : List Char :=
  trimEnd (cs.dropWhile isBlank)

end CorpusAnnotator.Text
