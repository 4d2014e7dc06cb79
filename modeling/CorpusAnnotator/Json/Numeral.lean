import CorpusAnnotator.Number.Decimal
import CorpusAnnotator.Number.Integer

/-! Numbers as JSON writes them, and the values that are made of them. A whole number that fits a
word of 64 bits is exact. Any other is a floating-point number: as many leading digits as fit a word
are taken as a whole number, and a power of ten is multiplied to it or divided out. -/
namespace CorpusAnnotator.Json

open Number (Binary64)

/-- A number as written. No digits after the point means that there is no point; of the exponent,
the flag says whether it is negative. -/
structure Numeral where
  negative : Bool
  whole : List Char
  fraction : List Char
  exponent : Option (Bool × List Char)
  deriving Repr, DecidableEq

/-- The value of a number. -/
inductive Quantity where
  | natural (n : Nat)
  | negative (n : Int)
  | float (x : Binary64)
  deriving Repr, DecidableEq

def Quantity.toFloat : Quantity → Binary64
  | .natural n => .ofNat n
  | .negative n => .ofInt n
  | .float x => x

/-- Take digits while the number they make after `value` fits a word; the digits left over. -/
def takeDigits (value : Nat) : List Char → Nat × List Char
  | [] => (value, [])
  | c :: rest =>
    let next := 10 * value + (c.toNat - '0'.toNat)
    if Number.maxNat64 < next then (value, c :: rest) else takeDigits next rest

/-- The greatest power of ten that is applied at once. -/
def powerLimit : Nat := 308

def powerOfTen (n : Nat) : Binary64 := .ofDecimal false 1 n

/-- Divide by a power of ten, step by step if it is large. -/
def divideByPower (x : Binary64) (n : Nat) : Binary64 :=
  if n ≤ powerLimit then x / powerOfTen n
  else if x.isZero then x
  else divideByPower (x / powerOfTen powerLimit) (n - powerLimit)
termination_by n
decreasing_by simp [powerLimit] at *; omega

/-- `significand * 10 ^ exponent`; none if that is too large. -/
def scaled? (significand : Nat) (exponent : Int) : Option Binary64 :=
  let x := Binary64.ofNat significand
  match exponent with
  | .ofNat n =>
    if x.isZero then some x
    else if powerLimit < n then none
    else
      let y := x * powerOfTen n
      if y.isFinite then some y else none
  | .negSucc n => some (divideByPower x (n + 1))

/-- The largest exponent that is read as a number. -/
def maxExponent : Nat := 0x7fffffff

namespace Numeral

def signed (n : Numeral) (x : Binary64) : Binary64 :=
  if n.negative then -x else x

/-- A whole number without an exponent. A zero with a minus sign is a floating-point number. -/
def wholeQuantity (n : Numeral) (value : Nat) : Quantity :=
  if !n.negative then .natural value
  else if value = 0 ∨ Number.maxInt64 + 1 < value then .float (-(Binary64.ofNat value))
  else .negative (-(value : Int))

/-- The value of a number; none if it is out of range. -/
def value? (n : Numeral) : Option Quantity :=
  let (significand, left) := takeDigits 0 n.whole
  if left.isEmpty && n.fraction.isEmpty && n.exponent.isNone then
    some (n.wholeQuantity significand)
  else
    let (significand, dropped) := takeDigits significand n.fraction
    let shift : Int := left.length - (n.fraction.length - dropped.length)
    let x? :=
      match n.exponent with
      | none => scaled? significand shift
      | some (negative, digits) =>
        let e := Number.digitsValue 0 digits
        if maxExponent < e then (if significand = 0 ∨ negative then some .zero else none)
        else scaled? significand (if negative then shift - e else shift + e)
    x?.map fun x => .float (n.signed x)

end Numeral

end CorpusAnnotator.Json
