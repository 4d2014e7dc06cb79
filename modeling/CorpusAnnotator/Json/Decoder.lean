import CorpusAnnotator.Json.Document

/-! Turning documents into values. A decoder goes through a document from its front, and its error
is that of the first place where the document is not well-formed or not what is wanted. What is not
wanted is passed over. -/
namespace CorpusAnnotator.Json

inductive Error where
  | fault (f : Fault)
  /-- The document is well-formed so far, but does not hold what is wanted. -/
  | mismatch
  deriving Repr, DecidableEq

/-- The text of symbols; half a pair of code units is no character. -/
def textOf (symbols : List Symbol) : Except Error String :=
  let char : Symbol → Except Error Char
    | .char c => .ok c
    | .half => .error (.fault .malformed)
  (symbols.mapM char).map String.ofList

/-- The value of a number. -/
def quantityOf (n : Numeral) : Except Error Quantity :=
  match n.value? with
  | some q => .ok q
  | none => .error (.fault .malformed)

namespace Ending

/-- A list or object has to end where it is at. -/
def needed : Ending → Except Error Unit
  | .closed => .ok ()
  | .broken _ b => .error (.fault b.needed)

def passed : Ending → Except Error Unit
  | .closed => .ok ()
  | .broken _ b => .error (.fault b.passed)

end Ending

namespace Node

/-! ## Values of one kind -/

/-- The error for a value of a kind that is not wanted. A text or a number is read first. -/
def unwanted : Node → Error
  | .broken b => .fault b.needed
  | .text symbols =>
    match textOf symbols with
    | .ok _ => .mismatch
    | .error e => e
  | .number n =>
    match quantityOf n with
    | .ok _ => .mismatch
    | .error e => e
  | _ => .mismatch

def toText : Node → Except Error String
  | .text symbols => textOf symbols
  | node => .error node.unwanted

/-- A whole number from zero on. -/
def toNat (node : Node) : Except Error Nat :=
  match node with
  | .number n => do
    match ← quantityOf n with
    | .natural n => return n
    | _ => throw .mismatch
  | node => .error node.unwanted

def toFloat : Node → Except Error Number.Binary64
  | .number n => (quantityOf n).map Quantity.toFloat
  | node => .error node.unwanted

/-- The largest signed number of 32 bits. -/
def maxInt32 : Nat := 0x7fffffff

/-- A whole number of 32 bits with a sign. -/
def toInt32 (node : Node) : Except Error Int :=
  match node with
  | .number n => do
    match ← quantityOf n with
    | .natural n => if n ≤ maxInt32 then return n else throw .mismatch
    | .negative n => if n < -(maxInt32 : Int) - 1 then throw .mismatch else return n
    | .float _ => throw .mismatch
  | node => .error node.unwanted

/-- Null, or a value. -/
def toOption {α : Type} (decode : Node → Except Error α) : Node → Except Error (Option α)
  | .null => .ok none
  | node => (decode node).map some

/-! ## Values of any kind -/

mutual

/-- Pass over a value. -/
def pass : Node → Except Error Unit
  | .null => .ok ()
  | .flag _ => .ok ()
  | .number _ => .ok ()
  | .text _ => .ok ()
  | .broken b => .error (.fault b.passed)
  | .list items ending => do
    passItems items
    ending.passed
  | .object fields ending => do
    passFields fields
    ending.passed

def passItems : List Node → Except Error Unit
  | [] => .ok ()
  | item :: rest => do
    item.pass
    passItems rest

def passFields : List (List Symbol × Node) → Except Error Unit
  | [] => .ok ()
  | (_, value) :: rest => do
    value.pass
    passFields rest

end

mutual

/-- Go through a value all of which is needed; its lists and objects may stand in each other
`levels` deep. -/
def need (levels : Nat) : Node → Except Error Unit
  | .null => .ok ()
  | .flag _ => .ok ()
  | .number n => do let _ ← quantityOf n
  | .text symbols => do let _ ← textOf symbols
  | .broken b => .error (.fault b.needed)
  | .list items ending =>
    match levels with
    | 0 => .error (.fault .malformed)
    | levels + 1 => do
      needItems levels items
      ending.needed
  | .object fields ending =>
    match levels with
    | 0 => .error (.fault .malformed)
    | levels + 1 => do
      needFields levels fields
      ending.needed

def needItems (levels : Nat) : List Node → Except Error Unit
  | [] => .ok ()
  | item :: rest => do
    item.need levels
    needItems levels rest

def needFields (levels : Nat) : List (List Symbol × Node) → Except Error Unit
  | [] => .ok ()
  | (name, value) :: rest => do
    let _ ← textOf name
    value.need levels
    needFields levels rest

end

/-! ## Records -/

variable {α β : Type}

/-- Go through fields in their order. -/
def foldFields (step : α → String → Node → Except Error α) (a : α) :
    List (List Symbol × Node) → Except Error α
  | [] => .ok a
  | (name, value) :: rest => do
    let a ← step a (← textOf name) value
    foldFields step a rest

/-- Go through items that stand for the fields of these names. All have to be there, and no more. -/
def foldItems (step : α → String → Node → Except Error α) (a : α) (ending : Ending) :
    (names : List String) → List Node → Except Error α
  | [], [] =>
    match ending with
    | .closed => .ok a
    | .broken true _ => .error (.fault .malformed)
    | .broken false b => .error (.fault b.needed)
  | [], _ :: _ => .error (.fault .malformed)
  | _ :: _, [] => do
    ending.needed
    throw .mismatch
  | name :: names, item :: items => do
    let a ← step a name item
    foldItems step a ending names items

/-- Go through a record: an object, or a list with the fields in the order of their names. -/
def record (names : List String) (step : α → String → Node → Except Error α) (a : α) :
    Node → Except Error α
  | .object fields ending => do
    let a ← foldFields step a fields
    ending.needed
    return a
  | .list items ending => foldItems step a ending names items
  | node => .error node.unwanted

/-- Decode a field that has not occurred before. -/
def once (before : Option α) (decode : Node → Except Error α) (node : Node) : Except Error α :=
  if before.isSome then .error .mismatch else decode node

end Node

/-- A field that has to be there. -/
def required {α : Type} : Option α → Except Error α
  | some a => .ok a
  | none => .error .mismatch

/-- Decode a document, after which nothing may stand. -/
def decode {α : Type} (read : Node → Except Error α) (text : String) : Except Error α := do
  let document := Document.read text
  let a ← read document.root
  if document.rest.isEmpty then return a else throw (.fault .malformed)

end CorpusAnnotator.Json
