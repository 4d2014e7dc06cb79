import CorpusAnnotator.Files.Tree
import CorpusAnnotator.Number.Decimal
import CorpusAnnotator.Shell.Arithmetic
import CorpusAnnotator.Shell.Octets

/-! Utilities of the shell that compute with texts: formatted printing, and tests. -/
namespace CorpusAnnotator.Shell

/-! ## Escapes -/

def isOctal (c : Char) : Bool := '0' ≤ c && c ≤ '7'

def octalValue (digits : List Char) : Char :=
  Char.ofNat (digits.foldl (fun n d => 8 * n + (d.toNat - '0'.toNat)) 0 % 256)

/-- The character of an escape that is one letter. -/
def letterEscape? (c : Char) : Option Char :=
  [('n', '\n'), ('t', '\t'), ('r', '\r'), ('a', '\x07'), ('b', '\x08'), ('f', '\x0c'),
    ('v', '\x0b'), ('\\', '\\')].lookup c

/-- Read an escape from after its backslash: what it stands for, and the rest. A number has up to
three octal digits, to which a zero in front is added when `zeroFirst` holds. An unknown escape
stands for itself. -/
def readEscape (zeroFirst : Bool) (text : List Char) : List Char × List Char :=
  match text with
  | [] => (['\\'], [])
  | c :: rest =>
    match letterEscape? c with
    | some d => ([d], rest)
    | none =>
      let digits := if zeroFirst then (if c = '0' then rest else []) else c :: rest
      let octal := (digits.takeWhile isOctal).take 3
      if zeroFirst && c = '0' || !octal.isEmpty then
        ([octalValue octal], digits.drop octal.length)
      else (['\\', c], rest)

/-- Replace escapes, of which one ends all printing: the flag says whether it goes on. -/
def expandEscapes : (fuel : Nat) → List Char → List Char × Bool
  | 0, text => (text, true)
  | _ + 1, [] => ([], true)
  | fuel + 1, c :: rest =>
    if c ≠ '\\' then
      let (more, goOn) := expandEscapes fuel rest
      (c :: more, goOn)
    else if rest.head? = some 'c' then ([], false)
    else
      let (front, rest) := readEscape true rest
      let (more, goOn) := expandEscapes fuel rest
      (front ++ more, goOn)

/-! ## Printing -/

/-- The words with spaces between them, in which escapes count, and a new line at the end unless the
first word turns it off. -/
def echoed (words : List (List Char)) : List Char :=
  let (newline, words) :=
    match words with
    | ['-', 'n'] :: rest => (false, rest)
    | words => (true, words)
  let text := [' '].intercalate words
  let (text, goOn) := expandEscapes text.length text
  if newline && goOn then text ++ ['\n'] else text

/-- A conversion of a format: flags, a least width, a number of places, and its letter. -/
structure Conversion where
  left : Bool
  zeros : Bool
  width : Nat
  places : Option Nat
  letter : Char
  deriving Repr, DecidableEq

/-- Read a conversion from after its percent sign. -/
def conversion? (text : List Char) : Option (Conversion × List Char) :=
  let flags := text.takeWhile fun c => c = '-' || c = '0' || c = '+' || c = ' '
  let rest := text.drop flags.length
  let width := rest.takeWhile Char.isDigit
  let rest := rest.drop width.length
  let (places, rest) :=
    match rest with
    | '.' :: rest =>
      let digits := rest.takeWhile Char.isDigit
      (some (Number.digitsValue 0 digits), rest.drop digits.length)
    | rest => (none, rest)
  match rest with
  | letter :: rest =>
    some (⟨'-' ∈ flags, '0' ∈ flags, Number.digitsValue 0 width, places, letter⟩, rest)
  | [] => none

def Conversion.padded (c : Conversion) (text : List Char) : List Char :=
  let gap := c.width - text.length
  if c.left then text ++ List.replicate gap ' '
  else if c.zeros && c.letter ≠ 's' then
    match text with
    | '-' :: digits => '-' :: List.replicate gap '0' ++ digits
    | digits => List.replicate gap '0' ++ digits
  else List.replicate gap ' ' ++ text

/-- An argument converted; none if it does not fit. -/
def Conversion.apply? (c : Conversion) (argument : List Char) : Option (List Char) :=
  if c.letter = 's' then
    some (c.padded (match c.places with | some n => argument.take n | none => argument))
  else if c.letter = 'b' then
    some (c.padded (expandEscapes argument.length argument).1)
  else if c.letter = 'c' then some (c.padded (argument.take 1))
  else if c.letter = 'd' ∨ c.letter = 'i' ∨ c.letter = 'u' then
    (Arithmetic.number? argument).map fun n => c.padded (toString n).toList
  else if c.letter = 'x' then
    (Arithmetic.number? argument).map fun n => c.padded (Nat.toDigits 16 n.toNat)
  else if c.letter = 'o' then
    (Arithmetic.number? argument).map fun n => c.padded (Nat.toDigits 8 n.toNat)
  else if c.letter = 'f' then
    let argument := if argument.isEmpty then ['0'] else argument
    match Number.readFloat argument with
    | .ok x => some (c.padded (Number.fixedText (c.places.getD 6) x).toList)
    | .error _ => none
  else none

/-- Go through a format once: what is printed, the arguments left, and whether all fitted. -/
def formatOnce : (fuel : Nat) → List Char → List (List Char) →
    List Char × List (List Char) × Bool
  | 0, _, arguments => ([], arguments, true)
  | _ + 1, [], arguments => ([], arguments, true)
  | fuel + 1, c :: rest, arguments =>
    if c = '%' ∧ rest.head? = some '%' then
      let (text, arguments, fits) := formatOnce fuel (rest.drop 1) arguments
      ('%' :: text, arguments, fits)
    else if c = '%' then
      match conversion? rest with
      | none => ([], arguments, false)
      | some (conversion, rest) =>
        let shown := conversion.apply? (arguments.headD [])
        let (text, arguments, fits) := formatOnce fuel rest (arguments.drop 1)
        (shown.getD ['0'] ++ text, arguments, fits && shown.isSome)
    else
      let (shown, rest) := if c = '\\' then readEscape false rest else ([c], rest)
      let (text, arguments, fits) := formatOnce fuel rest arguments
      (shown ++ text, arguments, fits)

/-- Go through a format until no arguments are left. -/
def formatAll (format : List Char) : (fuel : Nat) → List (List Char) → List Char × Bool
  | 0, _ => ([], true)
  | fuel + 1, arguments =>
    let (text, left, fits) := formatOnce (format.length + 1) format arguments
    if left.isEmpty || left.length = arguments.length then (text, fits)
    else
      let (more, moreFits) := formatAll format fuel left
      (text ++ more, fits && moreFits)

def formatted (format : List Char) (arguments : List (List Char)) : List Char × Bool :=
  formatAll format (arguments.length + 1) arguments

/-! ## Tests -/

/-- A test of one operand; none if there is no such test. -/
def testOne? (tree : Files.Tree) (operator operand : List Char) : Option Bool :=
  let path := decoded operand
  match String.ofList operator with
  | "-n" => some !operand.isEmpty
  | "-z" => some operand.isEmpty
  | "-e" => some (tree.find? path).isSome
  | "-f" => some (tree.isFile path)
  | "-d" => some (tree.isDirectory path)
  | "-r" => some (tree.find? path).isSome
  | "-w" => some (tree.find? path).isSome
  | "-s" =>
    match tree.find? path with
    | some (.file bytes _) => some !bytes.isEmpty
    | some .directory => some true
    | none => some false
  | "-x" =>
    match tree.find? path with
    | some (.file _ executable) => some executable
    | some .directory => some true
    | none => some false
  | _ => none

/-- A test of two operands; none if there is no such test or an operand is no number. -/
def testTwo? (operator a b : List Char) : Option Bool :=
  let compare (holds : Int → Int → Bool) : Option Bool := do
    return holds (← Arithmetic.number? a) (← Arithmetic.number? b)
  match String.ofList operator with
  | "=" => some (a = b)
  | "!=" => some (a ≠ b)
  | "-eq" => compare fun m n => m = n
  | "-ne" => compare fun m n => m ≠ n
  | "-lt" => compare fun m n => m < n
  | "-le" => compare fun m n => m ≤ n
  | "-gt" => compare fun m n => n < m
  | "-ge" => compare fun m n => n ≤ m
  | _ => none

/-- The words before the first that is `mark`, and those after it. -/
def splitAt? (mark : List Char) (words : List (List Char)) :
    Option (List (List Char) × List (List Char)) :=
  match words.dropWhile (· ≠ mark) with
  | [] => none
  | _ :: after => some (words.takeWhile (· ≠ mark), after)

/-- A test; none if it makes no sense. -/
def test? (tree : Files.Tree) : (fuel : Nat) → List (List Char) → Option Bool
  | 0, _ => none
  | _ + 1, [] => some false
  | _ + 1, [a] => some !a.isEmpty
  | fuel + 1, [a, b] =>
    if a = ['!'] then (test? tree fuel [b]).map (!·) else testOne? tree a b
  | fuel + 1, [a, b, c] =>
    match testTwo? b a c with
    | some holds => some holds
    | none => if a = ['!'] then (test? tree fuel [b, c]).map (!·) else none
  | fuel + 1, words =>
    match splitAt? ['-', 'o'] words with
    | some (first, second) => do return (← test? tree fuel first) || (← test? tree fuel second)
    | none =>
      match splitAt? ['-', 'a'] words with
      | some (first, second) => do return (← test? tree fuel first) && (← test? tree fuel second)
      | none =>
        if words.head? = some ['!'] then (test? tree fuel (words.drop 1)).map (!·) else none

end CorpusAnnotator.Shell
