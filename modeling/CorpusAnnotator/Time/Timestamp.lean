import CorpusAnnotator.Number.Decimal
import CorpusAnnotator.Text.Blank
import CorpusAnnotator.Time.Date
import CorpusAnnotator.Time.Duration

/-! Moments in universal time, to the nanosecond, and the internet format for them. It is read
leniently: numbers may lack leading zeros, and blanks may stand between them. -/
namespace CorpusAnnotator.Time

/-- A moment: a day, the second of the day, and the nanosecond of the second. The nanoseconds of a
leap second go on from the second before it. -/
structure Timestamp where
  date : Date
  second : Nat
  nanosecond : Nat
  deriving Repr, DecidableEq

namespace Timestamp

def secondsOfDay : Nat := 86400

/-! ## Reading -/

def skipBlanks (text : List Char) : List Char := text.dropWhile Text.isBlank

/-- At least one digit and at most `most`. -/
def digits? (most : Nat) (text : List Char) : Option (Nat × List Char) :=
  let digits := (text.takeWhile Char.isDigit).take most
  if digits.isEmpty then none
  else some (Number.digitsValue 0 digits, text.drop digits.length)

/-- A number of one or two digits from `low` to `high`, perhaps after blanks. -/
def field? (low high : Nat) (text : List Char) : Option (Nat × List Char) := do
  let (n, rest) ← digits? 2 (skipBlanks text)
  if low ≤ n ∧ n ≤ high then some (n, rest) else none

/-- A year: up to four digits, or a sign and any number of them. -/
def year? (text : List Char) : Option (Int × List Char) :=
  match skipBlanks text with
  | '-' :: rest => (digits? rest.length rest).map fun (n, rest) => (-(n : Int), rest)
  | '+' :: rest => (digits? rest.length rest).map fun (n, rest) => ((n : Int), rest)
  | text => (digits? 4 text).map fun (n, rest) => ((n : Int), rest)

/-- What follows a mark, perhaps after blanks. -/
def after? (mark : Char) (text : List Char) : Option (List Char) :=
  match skipBlanks text with
  | c :: rest => if c = mark then some rest else none
  | [] => none

/-- The mark between day and time. -/
def afterSeparator? : List Char → Option (List Char)
  | c :: rest => if c = 'T' ∨ c = 't' ∨ c = ' ' then some rest else none
  | [] => none

/-- The digits after the point of the seconds, if there is one; those after the ninth do not
count. -/
def fraction? : List Char → Option (Nat × List Char)
  | '.' :: text => do
    let digits := text.takeWhile Char.isDigit
    let counted := digits.take 9
    if digits.isEmpty then none
    else
      some (Number.digitsValue 0 counted * Nat.pow 10 (9 - counted.length), text.dropWhile Char.isDigit)
  | text => some (0, text)

/-- Exactly two digits. -/
def twoDigits? : List Char → Option (Nat × List Char)
  | a :: b :: rest =>
    if a.isDigit && b.isDigit then some (Number.digitsValue 0 [a, b], rest) else none
  | _ => none

/-- Hours and minutes after the sign of an offset, in seconds. -/
def offsetSize? (text : List Char) : Option (Nat × List Char) := do
  let (hours, rest) ← twoDigits? text
  let (minutes, rest) ← twoDigits? (rest.dropWhile fun c => c = ':' || Text.isBlank c)
  if minutes < 60 then some (hours * 3600 + minutes * 60, rest) else none

/-- The seconds by which local time is ahead of universal time: a letter or word for none, or hours
and minutes after a sign, which may be the hyphen or the true minus. -/
def offset? (text : List Char) : Option (Int × List Char) :=
  if Number.lower (text.take 3) = ['u', 't', 'c'] then some (0, text.drop 3)
  else
    match text with
    | [] => none
    | c :: rest =>
      if c = 'Z' ∨ c = 'z' then some (0, rest)
      else if c = '+' then (offsetSize? rest).map fun (n, rest) => ((n : Int), rest)
      else if c = '-' ∨ c = '\u2212' then
        (offsetSize? rest).map fun (n, rest) => (-(n : Int), rest)
      else none

/-- The moment of a local day and second, `ahead` seconds ahead of universal time. -/
def ofLocal? (date : Date) (second nanosecond : Nat) (ahead : Int) : Option Timestamp :=
  if ahead.natAbs < secondsOfDay then
    let s : Int := second - ahead
    if s < 0 then date.previous?.map fun date => ⟨date, (s + secondsOfDay).toNat, nanosecond⟩
    else if s < secondsOfDay then some ⟨date, s.toNat, nanosecond⟩
    else date.next?.map fun date => ⟨date, (s - secondsOfDay).toNat, nanosecond⟩
  else none

/-- Read a moment. -/
def read? (text : String) : Option Timestamp := do
  let (year, rest) ← year? text.toList
  let (month, rest) ← field? 1 12 (← after? '-' rest)
  let (day, rest) ← field? 1 31 (← after? '-' rest)
  let (hour, rest) ← field? 0 23 (← afterSeparator? rest)
  let (minute, rest) ← field? 0 59 (← after? ':' rest)
  let (second, rest) ← field? 0 60 (← after? ':' rest)
  let (fraction, rest) ← fraction? rest
  let (ahead, rest) ← offset? (skipBlanks rest)
  if (skipBlanks rest).isEmpty then
    let date ← Date.of? year month day
    let (second, nanosecond) := if second = 60 then (59, Duration.billion + fraction) else (second, fraction)
    ofLocal? date (hour * 3600 + minute * 60 + second) nanosecond ahead
  else none

/-! ## Writing -/

/-- A number with zeros in front of it up to a width. -/
def padded (width n : Nat) : String :=
  let digits := Nat.toDigits 10 n
  String.ofList (List.replicate (width - digits.length) '0' ++ digits)

/-- Years of four digits stand for themselves; any other has a sign. -/
def shownYear (year : Int) : String :=
  if 0 ≤ year ∧ year ≤ 9999 then padded 4 year.toNat
  else if year < 0 then "-" ++ padded 4 year.natAbs
  else "+" ++ padded 4 year.natAbs

/-- Three, six or nine digits, as many as the fraction needs. -/
def shownFraction (n : Nat) : String :=
  if n = 0 then ""
  else if n % 1000000 = 0 then "." ++ padded 3 (n / 1000000)
  else if n % 1000 = 0 then "." ++ padded 6 (n / 1000)
  else "." ++ padded 9 n

/-- The moment in the internet format. -/
def toString (t : Timestamp) : String :=
  let seconds := t.second % 60 + t.nanosecond / Duration.billion
  shownYear t.date.year ++ "-" ++ padded 2 t.date.month ++ "-" ++ padded 2 t.date.day ++ "T" ++
    padded 2 (t.second / 3600) ++ ":" ++ padded 2 (t.second / 60 % 60) ++ ":" ++ padded 2 seconds ++
    shownFraction (t.nanosecond % Duration.billion) ++ "Z"

end Timestamp

end CorpusAnnotator.Time
