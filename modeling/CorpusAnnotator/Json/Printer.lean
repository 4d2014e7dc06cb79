import CorpusAnnotator.Number.Decimal

/-! Printing JSON documents over several lines, each nested object indented by two more spaces. -/
namespace CorpusAnnotator.Json

open Number (Binary64 Scientific)

/-- A value to print. -/
inductive Value where
  | null
  | integer (n : Int)
  | float (x : Binary64)
  | text (s : String)
  | object (fields : List (String × Value))

/-! ## Texts -/

/-- The escape of a character: a letter for those that have one, and its number for other control
characters. -/
def escaped (c : Char) : List Char :=
  if c = '"' then ['\\', '"']
  else if c = '\\' then ['\\', '\\']
  else if c = '\x08' then ['\\', 'b']
  else if c = '\x0c' then ['\\', 'f']
  else if c = '\n' then ['\\', 'n']
  else if c = '\r' then ['\\', 'r']
  else if c = '\t' then ['\\', 't']
  else if c.toNat < 0x20 then
    ['\\', 'u', '0', '0', Nat.digitChar (c.toNat / 16), Nat.digitChar (c.toNat % 16)]
  else [c]

def quoted (s : String) : String :=
  String.ofList ('"' :: s.toList.flatMap escaped ++ ['"'])

/-! ## Numbers -/

/-- The exponents of the first digit that are written out in positional notation. -/
def isPositional (exponent : Int) : Bool := -5 ≤ exponent && exponent < 16

/-- The digits with a point after the first, and the exponent with its sign. -/
def withExponent (digits : List Char) (exponent : Int) : String :=
  let mantissa :=
    match digits with
    | [d] => [d]
    | d :: rest => d :: '.' :: rest
    | [] => []
  let sign := if exponent < 0 then "-" else "+"
  String.ofList mantissa ++ "e" ++ sign ++ toString exponent.natAbs

/-- A floating-point number by the fewest digits that read back; a whole one has a zero after the
point. What is no number is written as null. -/
def floatText : Binary64 → String
  | .nan => "null"
  | .infinite _ => "null"
  | .finite negative m e =>
    let sign := if negative then "-" else ""
    if m = 0 then sign ++ "0.0"
    else
      let s := Number.shortest .toEven m e
      let digits := Nat.toDigits 10 s.digits
      let exponent := s.exponent + digits.length - 1
      if isPositional exponent then
        sign ++ s.positional ++ (if s.exponent < 0 then "" else ".0")
      else sign ++ withExponent digits exponent

/-! ## Values -/

def indent (depth : Nat) : String :=
  String.ofList (List.replicate (2 * depth) ' ')

mutual

/-- The text of a value inside `depth` objects. -/
def Value.render (depth : Nat) : Value → String
  | .null => "null"
  | .integer n => toString n
  | .float x => floatText x
  | .text s => quoted s
  | .object [] => "\x7b\x7d"
  | .object (field :: fields) =>
    "\x7b\n" ++ renderFields (depth + 1) (field :: fields) ++ "\n" ++ indent depth ++ "\x7d"

/-- The lines of fields, with commas between them. -/
def renderFields (depth : Nat) : List (String × Value) → String
  | [] => ""
  | [(name, value)] => indent depth ++ quoted name ++ ": " ++ value.render depth
  | (name, value) :: next :: rest =>
    indent depth ++ quoted name ++ ": " ++ value.render depth ++ ",\n" ++
      renderFields depth (next :: rest)

end

/-- The text of a document. -/
def Value.toText (v : Value) : String := v.render 0

end CorpusAnnotator.Json
