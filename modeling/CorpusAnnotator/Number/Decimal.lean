import CorpusAnnotator.Number.Binary64

/-! Decimal text of floating-point numbers: reading, the fewest digits that read back, and a fixed
number of places. -/
namespace CorpusAnnotator.Number

/-! ## Reading -/

inductive FloatError where
  | empty
  | malformed
  deriving Repr, DecidableEq

def FloatError.message : FloatError → String
  | .empty => "cannot parse float from empty string"
  | .malformed => "invalid float literal"

/-- The value of a run of digits, after digits that gave `value`. -/
def digitsValue (value : Nat) (digits : List Char) : Nat :=
  digits.foldl (fun v c => 10 * v + (c.toNat - '0'.toNat)) value

/-- A sign in front, and what follows it. -/
def splitSign : List Char → Bool × List Char
  | '-' :: rest => (true, rest)
  | '+' :: rest => (false, rest)
  | text => (false, text)

def lower (text : List Char) : List Char :=
  text.map Char.toLower

/-- The digits of a decimal numeral: `whole.fraction` times ten to the power `exponent`. -/
structure Numeral where
  whole : List Char
  fraction : List Char
  exponent : Int
  deriving Repr, DecidableEq

/-- Read `e`, an optional sign and digits, up to the end; an absent exponent is zero. -/
def exponent? : List Char → Option Int
  | [] => some 0
  | c :: rest =>
    if c = 'e' ∨ c = 'E' then
      let (negative, digits) := splitSign rest
      if digits.isEmpty || !digits.all Char.isDigit then none
      else
        let n : Int := digitsValue 0 digits
        some (if negative then -n else n)
    else none

/-- Read digits with at most one point among them, and an optional exponent. At least one digit
stands before or after the point. -/
def numeral? (text : List Char) : Option Numeral :=
  let whole := text.takeWhile Char.isDigit
  let rest := text.dropWhile Char.isDigit
  let (fraction, rest) :=
    match rest with
    | '.' :: after => (after.takeWhile Char.isDigit, after.dropWhile Char.isDigit)
    | rest => ([], rest)
  if whole.isEmpty && fraction.isEmpty then none
  else (exponent? rest).map fun exponent => ⟨whole, fraction, exponent⟩

/-- The nearest number. An exponent far outside the format's range decides alone, so that no huge
power is computed. -/
def Numeral.value (n : Numeral) (negative : Bool) : Binary64 :=
  let digits := digitsValue (digitsValue 0 n.whole) n.fraction
  let exponent := n.exponent - n.fraction.length
  let count : Int := n.whole.length + n.fraction.length
  if digits = 0 then .finite negative 0 Binary64.leastExponent
  else if 400 < exponent then .infinite negative
  else if exponent + count < -400 then .finite negative 0 Binary64.leastExponent
  else Binary64.ofDecimal negative digits exponent

/-- Read a number: a decimal numeral, or one of the words for infinity and for no number, in any
case and with an optional sign. -/
def readFloat (text : List Char) : Except FloatError Binary64 :=
  if text.isEmpty then .error .empty
  else
    let (negative, rest) := splitSign text
    let word := String.ofList (lower rest)
    if word = "nan" then .ok .nan
    else if word = "inf" || word = "infinity" then .ok (.infinite negative)
    else
      match numeral? rest with
      | some n => .ok (n.value negative)
      | none => .error .malformed

/-! ## The fewest digits -/

/-- Which of two equally near decimals is taken. -/
inductive Tie where
  | toEven
  | up
  deriving Repr, DecidableEq

/-- A decimal `digits * 10 ^ exponent`. -/
structure Scientific where
  digits : Nat
  exponent : Int
  deriving Repr, DecidableEq

/-- The reals that read back as a number, scaled to whole numbers over a common `unit`: those from
`low` to `high`, with `mid` the number itself. The ends belong to it when `closed`. -/
structure Interval where
  low : Nat
  mid : Nat
  high : Nat
  unit : Nat
  closed : Bool
  deriving Repr, DecidableEq

/-- The interval of `m * 2 ^ e`. Below a power of two the neighbour is half as far. -/
def Interval.of (m : Nat) (e : Int) : Interval :=
  let low := if m = Binary64.leadingBit ∧ e ≠ Binary64.leastExponent then 4 * m - 1 else 4 * m - 2
  let (scale, unit) := Binary64.fraction 1 (e - 2)
  ⟨low * scale, 4 * m * scale, (4 * m + 2) * scale, unit, m % 2 = 0⟩

def Interval.contains (i : Interval) (x : Nat) : Bool :=
  if i.closed then i.low ≤ x && x ≤ i.high else i.low < x && x < i.high

/-- The interval in multiples of `10 ^ exponent`: its three points and its unit multiplied so that
a grid point is a multiple of the unit. -/
def Interval.onGrid (i : Interval) (exponent : Int) : Interval :=
  match exponent with
  | .ofNat k => { i with unit := i.unit * Nat.pow 10 k }
  | .negSucc k =>
    let p := Nat.pow 10 (k + 1)
    { i with low := i.low * p, mid := i.mid * p, high := i.high * p }

/-- The grid point next to the middle that lies inside: of two the nearer. -/
def Interval.nearest? (i : Interval) (tie : Tie) : Option Nat :=
  let below := i.mid / i.unit
  let above := below + 1
  let down := i.contains (below * i.unit)
  let up := i.contains (above * i.unit)
  let gap := 2 * (i.mid - below * i.unit)
  if down && up then
    if gap < i.unit then some below
    else if i.unit < gap then some above
    else match tie with
      | .toEven => some (if below % 2 = 0 then below else above)
      | .up => some above
  else if down then some below
  else if up then some above
  else none

/-- The number of decimal digits of a positive number. -/
def digitCount (n : Nat) : Nat := (Nat.toDigits 10 n).length

/-- Try grids that are finer by one digit each, from `exponent` down. -/
def Interval.search (i : Interval) (tie : Tie) : Nat → Int → Scientific
  | 0, exponent => ⟨(i.onGrid exponent).mid / (i.onGrid exponent).unit, exponent⟩
  | fuel + 1, exponent =>
    match (i.onGrid exponent).nearest? tie with
    | some digits => ⟨digits, exponent⟩
    | none => i.search tie fuel (exponent - 1)

/-- The exponent of the first digit of `num / den`. -/
def leadingExponent (num den : Nat) : Int :=
  if den ≤ num then (digitCount (num / den) : Int) - 1
  else
    -- a power of ten at least the reciprocal, and then its neighbour
    let k := digitCount (den / num)
    if den ≤ num * Nat.pow 10 (k - 1) then 1 - (k : Int) else -(k : Int)

/-- Take zeros off the end. -/
def Scientific.trim : Nat → Scientific → Scientific
  | 0, s => s
  | fuel + 1, s =>
    if s.digits ≠ 0 ∧ s.digits % 10 = 0 then trim fuel ⟨s.digits / 10, s.exponent + 1⟩ else s

/-- The decimal with the fewest digits that reads back as the positive number `m * 2 ^ e`, and of
those the nearest to it. Seventeen digits always suffice. -/
def shortest (tie : Tie) (m : Nat) (e : Int) : Scientific :=
  let i := Interval.of m e
  (i.search tie 17 (leadingExponent i.mid i.unit)).trim 20

/-! ## Writing -/

/-- The digits in positional notation. -/
def Scientific.positional (s : Scientific) : String :=
  let digits := Nat.toDigits 10 s.digits
  match s.exponent with
  | .ofNat k => String.ofList (digits ++ List.replicate k '0')
  | .negSucc k =>
    let places := k + 1
    if digits.length ≤ places then
      String.ofList ("0.".toList ++ List.replicate (places - digits.length) '0' ++ digits)
    else
      String.ofList (digits.take (digits.length - places) ++ '.' ::
        digits.drop (digits.length - places))

/-- Positional notation throughout, without a point where there is no fraction. -/
def plainText : Binary64 → String
  | .nan => "NaN"
  | .infinite negative => if negative then "-inf" else "inf"
  | .finite negative m e =>
    let sign := if negative then "-" else ""
    if m = 0 then sign ++ "0" else sign ++ (shortest .up m e).positional

/-- A number with `places` digits after the point; a tie goes to the even digit. -/
def fixedText (places : Nat) : Binary64 → String
  | .nan => "NaN"
  | .infinite negative => if negative then "-inf" else "inf"
  | .finite negative m e =>
    let sign := if negative then "-" else ""
    let (num, den) := Binary64.fraction m e
    let n := roundDiv (num * Nat.pow 10 places) den
    let digits := Nat.toDigits 10 n
    let digits := List.replicate (places + 1 - digits.length) '0' ++ digits
    let whole := digits.take (digits.length - places)
    let rest := digits.drop (digits.length - places)
    sign ++ String.ofList (if places = 0 then whole else whole ++ '.' :: rest)

end CorpusAnnotator.Number
