/-! Whole numbers written in decimal: an optional sign and at least one digit. Reading goes from
left to right and stops at the first character that is no digit or takes the number out of its
range, so a text with several faults is refused for the first of them. -/
namespace CorpusAnnotator.Number

/-- Why a text is no whole number of the wanted range. -/
inductive IntegerError where
  | empty
  | badDigit
  | tooLarge
  | tooSmall
  deriving Repr, DecidableEq

def IntegerError.message : IntegerError → String
  | .empty => "cannot parse integer from empty string"
  | .badDigit => "invalid digit found in string"
  | .tooLarge => "number too large to fit in target type"
  | .tooSmall => "number too small to fit in target type"

def digit? (c : Char) : Option Nat :=
  if c.isDigit then some (c.toNat - '0'.toNat) else none

/-- Read digits after those that gave `value`, none of which may take it past `limit`. -/
def readDigits (limit : Nat) (beyond : IntegerError) : Nat → List Char → Except IntegerError Nat
  | value, [] => .ok value
  | value, c :: rest =>
    match digit? c with
    | none => .error .badDigit
    | some d =>
      if limit < 10 * value + d then .error beyond
      else readDigits limit beyond (10 * value + d) rest

/-- Read a number from zero to `limit`. A plus sign is allowed. -/
def readNat (limit : Nat) : List Char → Except IntegerError Nat
  | [] => .error .empty
  | ['+'] => .error .badDigit
  | '+' :: rest => readDigits limit .tooLarge 0 rest
  | text => readDigits limit .tooLarge 0 text

/-- Read a number from `-(limit + 1)` to `limit`. -/
def readInt (limit : Nat) : List Char → Except IntegerError Int
  | ['-'] => .error .badDigit
  | '-' :: rest => (readDigits (limit + 1) .tooSmall 0 rest).map fun n => -(n : Int)
  | text => (readNat limit text).map Int.ofNat

/-- How many numbers a word of 64 bits tells apart. -/
def wordSize : Nat := 0x10000000000000000

/-- The largest signed number of 64 bits. -/
def maxInt64 : Nat := 0x7fffffffffffffff

/-- The largest unsigned number of 64 bits. -/
def maxNat64 : Nat := 0xffffffffffffffff

def readInt64 : List Char → Except IntegerError Int := readInt maxInt64

def readNat64 : List Char → Except IntegerError Nat := readNat maxNat64

end CorpusAnnotator.Number
