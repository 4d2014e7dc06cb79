import CorpusAnnotator.Number.Integer
import CorpusAnnotator.Text.Split
import CorpusAnnotator.Toml.Value

/-! Scalars of TOML that are written without quotes: booleans, integers, floats, dates and times.
Each is read from a whole word. -/
namespace CorpusAnnotator.Toml

open Number (Binary64)

/-! ## Digits -/

def isHexDigit (c : Char) : Bool :=
  c.isDigit || ('a' ≤ c && c ≤ 'f') || ('A' ≤ c && c ≤ 'F')

def isOctalDigit (c : Char) : Bool := '0' ≤ c && c ≤ '7'

def isBinaryDigit (c : Char) : Bool := c = '0' || c = '1'

def digitOf (c : Char) : Nat :=
  if c.isDigit then c.toNat - '0'.toNat else c.toLower.toNat - 'a'.toNat + 10

/-- Digits with single low lines between them, which are dropped. -/
def digits? (isDigit : Char → Bool) (text : List Char) : Option (List Char) :=
  let parts := Text.split '_' text
  if parts.all fun p => !p.isEmpty && p.all isDigit then some parts.flatten else none

def valueOf (base : Nat) (digits : List Char) : Nat :=
  digits.foldl (fun v c => base * v + digitOf c) 0

/-! ## Integers -/

/-- Decimal digits that do not begin with a zero, or a zero alone. -/
def decimal? (text : List Char) : Option (List Char) :=
  if text = ['0'] then some text
  else if text.head? = some '0' then none
  else digits? Char.isDigit text

def signed (negative : Bool) (n : Nat) : Int :=
  if negative then -(n : Int) else n

/-- Integers have 64 bits. -/
def inRange (n : Int) : Option Int :=
  if -(Number.maxInt64 : Int) - 1 ≤ n ∧ n ≤ Number.maxInt64 then some n else none

def integer? (text : List Char) : Option Int :=
  match text with
  | '0' :: 'x' :: rest => (digits? isHexDigit rest).bind fun ds => inRange (valueOf 16 ds)
  | '0' :: 'o' :: rest => (digits? isOctalDigit rest).bind fun ds => inRange (valueOf 8 ds)
  | '0' :: 'b' :: rest => (digits? isBinaryDigit rest).bind fun ds => inRange (valueOf 2 ds)
  | text =>
    let (negative, rest) := Number.splitSign text
    (decimal? rest).bind fun ds => inRange (signed negative (valueOf 10 ds))

/-! ## Floats -/

/-- The part after the whole digits: a fraction, an exponent, or both. -/
def fractionAndExponent (text : List Char) : Bool :=
  let exponentOk (text : List Char) : Bool :=
    (digits? Char.isDigit (Number.splitSign text).2).isSome
  match text with
  | '.' :: rest =>
    let fraction := rest.takeWhile fun c => c ≠ 'e' ∧ c ≠ 'E'
    let after := rest.dropWhile fun c => c ≠ 'e' ∧ c ≠ 'E'
    (digits? Char.isDigit fraction).isSome && (after.isEmpty || exponentOk (after.drop 1))
  | c :: rest => (c = 'e' || c = 'E') && exponentOk rest
  | [] => false

/-- A float is a decimal numeral with a fraction or an exponent, or one of two words. A numeral too
large for the format is refused, but only where it is positive. -/
def float? (text : List Char) : Option Binary64 :=
  let (negative, rest) := Number.splitSign text
  if rest = ['i', 'n', 'f'] then some (.infinite negative)
  else if rest = ['n', 'a', 'n'] then some .nan
  else
    let isWhole (c : Char) : Bool := c.isDigit || c = '_'
    let whole? := decimal? (rest.takeWhile isWhole)
    if whole?.isSome && fractionAndExponent (rest.dropWhile isWhole) then
      match Number.readFloat (text.filter (· != '_')) with
      | .ok (.infinite false) => none
      | .ok x => some x
      | .error _ => none
    else none

/-! ## Dates and times -/

/-- Two digits that make a number of at most `limit`. -/
def twoDigits? (limit : Nat) (a b : Char) : Option Nat :=
  if a.isDigit && b.isDigit then
    let n := 10 * digitOf a + digitOf b
    if n ≤ limit then some n else none
  else none

def isLeapYear (year : Nat) : Bool :=
  year % 4 = 0 && (year % 100 ≠ 0 || year % 400 = 0)

def daysIn (year month : Nat) : Nat :=
  if month = 2 then (if isLeapYear year then 29 else 28)
  else if month = 4 ∨ month = 6 ∨ month = 9 ∨ month = 11 then 30
  else 31

/-- A date in front of a word, as it is written, and what follows it. -/
def date? : List Char → Option (List Char × List Char)
  | y :: y' :: y'' :: y''' :: '-' :: m :: m' :: '-' :: d :: d' :: rest => do
    let century ← twoDigits? 99 y y'
    let year ← twoDigits? 99 y'' y'''
    let month ← twoDigits? 12 m m'
    let day ← twoDigits? 31 d d'
    if month = 0 ∨ day = 0 ∨ daysIn (100 * century + year) month < day then none
    else some ([y, y', y'', y''', '-', m, m', '-', d, d'], rest)
  | _ => none

/-- A time of day in front of a word, in its shortest form, and what follows it. Of a fraction, nine
digits count, and zeros at their end are not shown. -/
def time? : List Char → Option (List Char × List Char)
  | h :: h' :: ':' :: m :: m' :: ':' :: s :: s' :: rest => do
    let _ ← twoDigits? 23 h h'
    let _ ← twoDigits? 59 m m'
    let _ ← twoDigits? 60 s s'
    let clock := [h, h', ':', m, m', ':', s, s']
    match rest with
    | '.' :: after =>
      let fraction := after.takeWhile Char.isDigit
      if fraction.isEmpty then none
      else
        let kept := ((fraction.take 9).reverse.dropWhile (· = '0')).reverse
        some (clock ++ (if kept.isEmpty then [] else '.' :: kept), after.dropWhile Char.isDigit)
    | rest => some (clock, rest)
  | _ => none

/-- An offset from universal time that takes up a whole word; no difference at all is positive. -/
def offset? : List Char → Option (List Char)
  | [c] => if c = 'Z' ∨ c = 'z' then some ['Z'] else none
  | [sign, h, h', ':', m, m'] => do
    if sign ≠ '+' ∧ sign ≠ '-' then none
    else
      let hours ← twoDigits? 23 h h'
      let minutes ← twoDigits? 59 m m'
      let sign := if hours = 0 ∧ minutes = 0 then '+' else sign
      some [sign, h, h', ':', m, m']
  | _ => none

/-- A time and perhaps an offset that take up a whole word. -/
def timeAndOffset? (text : List Char) : Option (List Char) := do
  let (time, rest) ← time? text
  if rest.isEmpty then return time
  return time ++ (← offset? rest)

/-- A date, a date with a time and perhaps an offset, or a time. -/
def moment? (text : List Char) : Option (List Char) :=
  match date? text with
  | some (date, []) => some date
  | some (date, c :: rest) =>
    if c = 'T' ∨ c = 't' then (timeAndOffset? rest).map (date ++ 'T' :: ·) else none
  | none =>
    match time? text with
    | some (time, []) => some time
    | _ => none

/-- The scalar that a word spells. -/
def scalar? (text : List Char) : Option Value :=
  if text = "true".toList then some (.flag true)
  else if text = "false".toList then some (.flag false)
  else
    match moment? text with
    | some shown => some (.moment (String.ofList shown))
    | none =>
      match float? text with
      | some x => some (.float x)
      | none => (integer? text).map .integer

end CorpusAnnotator.Toml
