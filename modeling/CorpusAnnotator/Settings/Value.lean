import CorpusAnnotator.Number.Decimal
import CorpusAnnotator.Number.Integer
import CorpusAnnotator.Toml.Value

/-! Values of settings, and how they turn into what a setting wants. Text, numbers and booleans turn
into one another where the meaning is plain. -/
namespace CorpusAnnotator.Settings

open Number (Binary64)

inductive Value where
  | nothing
  | flag (b : Bool)
  | integer (n : Int)
  | float (x : Binary64)
  | text (s : String)
  | list (items : List Value)
  | table (entries : List (String × Value))
  deriving Repr

namespace Value

mutual

/-- The setting that a value of a file stands for; dates and times are text. -/
def ofToml : Toml.Value → Value
  | .text s => .text s
  | .integer n => .integer n
  | .float x => .float x
  | .flag b => .flag b
  | .moment shown => .text shown
  | .list items => .list (ofTomlItems items)
  | .table entries => .table (ofTomlEntries entries)

def ofTomlItems : List Toml.Value → List Value
  | [] => []
  | v :: rest => ofToml v :: ofTomlItems rest

def ofTomlEntries : List (String × Toml.Value) → List (String × Value)
  | [] => []
  | (name, v) :: rest => (name, ofToml v) :: ofTomlEntries rest

end

/-- The setting that plain text stands for: a boolean in any case, a whole number of 64 bits, any
other number, and else the text itself. -/
def ofText (s : String) : Value :=
  let cs := s.toList
  let word := String.ofList (Number.lower cs)
  if word = "true" then .flag true
  else if word = "false" then .flag false
  else
    match Number.readInt64 cs with
    | .ok n => .integer n
    | .error _ =>
      match Number.readFloat cs with
      | .ok x => .float x
      | .error _ => .text s

def entries : Value → List (String × Value)
  | .table entries => entries
  | _ => []

def items : Value → List Value
  | .list items => items
  | _ => []

/-! ## Conversions -/

def toText? : Value → Option String
  | .text s => some s
  | .flag b => some (if b then "true" else "false")
  | .integer n => some (toString n)
  | .float x => some (Number.plainText x)
  | _ => none

def isYes (word : String) : Bool := word = "true" || word = "on" || word = "yes"

def isNo (word : String) : Bool := word = "false" || word = "off" || word = "no"

def toFlag? : Value → Option Bool
  | .flag b => some b
  | .integer n => some (n ≠ 0)
  | .float x => some !x.isZero
  | .text s =>
    let word := String.ofList (Number.lower s.toList)
    if isYes word || word = "1" then some true
    else if isNo word || word = "0" then some false
    else none
  | _ => none

/-- The nearest whole number, a half going away from zero, held between zero and the largest word.
What is no number counts as zero. -/
def countOfFloat : Binary64 → Nat
  | .nan => 0
  | .infinite negative => if negative then 0 else Number.maxNat64
  | .finite negative m e =>
    if negative then 0
    else
      let (num, den) := Binary64.fraction m e
      min ((2 * num + den) / (2 * den)) Number.maxNat64

/-- A number of things, from zero to the largest word. -/
def toCount? : Value → Option Nat
  | .integer n => if 0 ≤ n then some n.toNat else none
  | .float x => some (countOfFloat x)
  | .flag b => some (if b then 1 else 0)
  | .text s =>
    let word := String.ofList (Number.lower s.toList)
    if isYes word then some 1
    else if isNo word then some 0
    else (Number.readNat64 s.toList).toOption
  | _ => none

end Value

end CorpusAnnotator.Settings
