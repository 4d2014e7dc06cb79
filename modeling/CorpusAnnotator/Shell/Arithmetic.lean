import CorpusAnnotator.Number.Decimal

/-! Whole-number arithmetic of shell scripts. -/
namespace CorpusAnnotator.Shell.Arithmetic

/-- The operators between two operands, each with its rank; a higher rank binds tighter. Longer
signs stand before those that they begin with. -/
def operators : List (String × Nat × (Int → Int → Option Int)) :=
  let truth (b : Bool) : Option Int := some (if b then 1 else 0)
  [("||", 1, fun a b => truth (a ≠ 0 || b ≠ 0)), ("&&", 2, fun a b => truth (a ≠ 0 && b ≠ 0)),
    ("==", 6, fun a b => truth (a = b)), ("!=", 6, fun a b => truth (a ≠ b)),
    ("<=", 7, fun a b => truth (a ≤ b)), (">=", 7, fun a b => truth (b ≤ a)),
    ("<", 7, fun a b => truth (a < b)), (">", 7, fun a b => truth (b < a)),
    ("+", 9, fun a b => some (a + b)), ("-", 9, fun a b => some (a - b)),
    ("*", 10, fun a b => some (a * b)),
    ("/", 10, fun a b => if b = 0 then none else some (a.tdiv b)),
    ("%", 10, fun a b => if b = 0 then none else some (a.tmod b))]

def skipSpaces (text : List Char) : List Char := text.dropWhile Char.isWhitespace

/-- A whole number with an optional sign; the empty text is zero. -/
def number? (text : List Char) : Option Int :=
  let (negative, digits) := Number.splitSign (skipSpaces text)
  if digits.all Char.isDigit then
    let n : Int := Number.digitsValue 0 digits
    some (if negative then -n else n)
  else none

mutual

/-- An expression whose operators rank at least `rank`. `value` gives the texts of names. -/
def expression (value : List Char → List Char) :
    (fuel rank : Nat) → List Char → Option (Int × List Char)
  | 0, _, _ => none
  | fuel + 1, rank, text => do
    let (first, rest) ← operand value fuel text
    following value fuel rank first rest

/-- Go on from a first operand. -/
def following (value : List Char → List Char) :
    (fuel rank : Nat) → Int → List Char → Option (Int × List Char)
  | 0, _, _, _ => none
  | fuel + 1, rank, first, text =>
    let text := skipSpaces text
    match operators.find? fun (sign, _) => sign.toList.isPrefixOf text with
    | none => some (first, text)
    | some (sign, r, apply) =>
      if r < rank then some (first, text)
      else do
        let (second, rest) ← expression value fuel (r + 1) (text.drop sign.length)
        following value fuel rank (← apply first second) rest

def operand (value : List Char → List Char) : (fuel : Nat) → List Char → Option (Int × List Char)
  | 0, _ => none
  | fuel + 1, text =>
    match skipSpaces text with
    | [] => none
    | c :: rest =>
      if c = '(' then do
        let (n, rest) ← expression value fuel 0 rest
        match skipSpaces rest with
        | ')' :: rest => return (n, rest)
        | _ => none
      else if c = '-' then (operand value fuel rest).map fun (n, rest) => (-n, rest)
      else if c = '+' then operand value fuel rest
      else if c = '!' then
        (operand value fuel rest).map fun (n, rest) => (if n = 0 then 1 else 0, rest)
      else if c.isDigit then
        let digits := (c :: rest).takeWhile Char.isDigit
        some (Number.digitsValue 0 digits, (c :: rest).drop digits.length)
      else
        let isNameChar (d : Char) : Bool := d.isAlphanum || d = '_'
        let name := (c :: rest).takeWhile isNameChar
        if name.isEmpty then none
        else (number? (value name)).map fun n => (n, (c :: rest).drop name.length)

end

/-- The value of an expression; the empty one is zero. -/
def evaluate? (value : List Char → List Char) (text : List Char) : Option Int :=
  if (skipSpaces text).isEmpty then some 0
  else
    match expression value (4 * text.length + 4) 0 text with
    | some (n, rest) => if (skipSpaces rest).isEmpty then some n else none
    | none => none

end CorpusAnnotator.Shell.Arithmetic
