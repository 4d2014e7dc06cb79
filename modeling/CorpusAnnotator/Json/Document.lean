import CorpusAnnotator.Json.Numeral
import CorpusAnnotator.Text.Taken
import CorpusAnnotator.Text.Utf8

/-! JSON documents as they are written, up to the place where one stops being well-formed. Such a
place is kept as a leaf, so that a reader that goes through a document from its front comes to a
fault only after all that stands before it. -/
namespace CorpusAnnotator.Json

/-- How a document stops being well-formed: at a character that cannot stand there, or because it
ends too early. -/
inductive Fault where
  | malformed
  | cut
  deriving Repr, DecidableEq

/-- The fault at a place, for a reader that needs the value there, and for one that passes over it.
-/
structure Break where
  needed : Fault
  passed : Fault
  deriving Repr, DecidableEq

def Break.same (f : Fault) : Break := ⟨f, f⟩

/-- A character of a text, or half of a pair of code units whose other half is missing. -/
inductive Symbol where
  | char (c : Char)
  | half
  deriving Repr, DecidableEq

/-- How a list or an object ends; `afterComma` says that a fault comes after a comma. -/
inductive Ending where
  | closed
  | broken (afterComma : Bool) (b : Break)
  deriving Repr, DecidableEq

inductive Node where
  | null
  | flag (value : Bool)
  | number (n : Numeral)
  | text (symbols : List Symbol)
  | list (items : List Node) (ending : Ending)
  | object (fields : List (List Symbol × Node)) (ending : Ending)
  | broken (b : Break)

/-- Something read from the front of a text, and the text after it. There is none after a fault. -/
structure Part (α : Type) (input : List Char) where
  value : α
  rest : Option { rest : List Char // rest.length < input.length }

namespace Part

variable {α β : Type} {input : List Char}

def stop (value : α) : Part α input := ⟨value, none⟩

def go (value : α) (rest : List Char) (h : rest.length < input.length) : Part α input :=
  ⟨value, some ⟨rest, h⟩⟩

def map (f : α → β) (p : Part α input) : Part β input := ⟨f p.value, p.rest⟩

/-- What was read from a part of the input was read from the input. -/
def widen {part : List Char} (p : Part α part) (h : part.length ≤ input.length) : Part α input :=
  ⟨p.value, p.rest.map fun r => ⟨r.1, Nat.lt_of_lt_of_le r.2 h⟩⟩

end Part

/-! ## Words and numbers -/

def isSpace (c : Char) : Bool :=
  c = ' ' || c = '\t' || c = '\n' || c = '\r'

def skipSpaces (text : List Char) : List Char :=
  text.dropWhile isSpace

theorem length_skipSpaces (text : List Char) : (skipSpaces text).length ≤ text.length :=
  (List.dropWhile_sublist _).length_le

/-- The rest of a word of which the first character has been seen. -/
def readWord (node : Node) : (word text : List Char) → (input : List Char) →
    text.length < input.length → Part Node input
  | [], text, _, h => .go node text h
  | _ :: _, [], _, _ => .stop (.broken (.same .cut))
  | w :: word, c :: rest, input, h =>
    if c = w then readWord node word rest input (by simp only [List.length_cons] at h; omega)
    else .stop (.broken (.same .malformed))

/-- A number that stops short. A reader that passes over it takes its end for a wrong character. -/
def brokenNumber (rest : List Char) : Node :=
  .broken (if rest.isEmpty then ⟨.cut, .malformed⟩ else .same .malformed)

/-- The part of a number from the letter of its exponent on. -/
def readExponent (n : Numeral) (text : List Char) : Node × List Char :=
  match text with
  | [] => (.number n, [])
  | c :: rest =>
    if c = 'e' ∨ c = 'E' then
      let (negative, digits) := Number.splitSign rest
      let exponent := digits.takeWhile Char.isDigit
      let rest := digits.dropWhile Char.isDigit
      if exponent.isEmpty then (brokenNumber rest, [])
      else (.number { n with exponent := some (negative, exponent) }, rest)
    else (.number n, text)

/-- The part of a number from its point on. -/
def readFraction (n : Numeral) (text : List Char) : Node × List Char :=
  match text with
  | '.' :: rest =>
    let fraction := rest.takeWhile Char.isDigit
    let rest := rest.dropWhile Char.isDigit
    if fraction.isEmpty then (brokenNumber rest, [])
    else readExponent { n with fraction } rest
  | _ => readExponent n text

/-- A number from after its sign. A zero in front stands alone. -/
def readNumeral (negative : Bool) (text : List Char) : Node × List Char :=
  let whole := text.takeWhile Char.isDigit
  let rest := text.dropWhile Char.isDigit
  if whole.isEmpty then (brokenNumber rest, [])
  else if whole.head? = some '0' ∧ 1 < whole.length then (.broken (.same .malformed), [])
  else readFraction ⟨negative, whole, [], none⟩ rest

def readNumber (text : List Char) : Node × List Char :=
  match text with
  | '-' :: rest => readNumeral true rest
  | _ => readNumeral false text

/-! ## Texts -/

/-- A character as written, or a code unit by its number. -/
inductive Piece where
  | char (c : Char)
  | unit (n : Nat)
  deriving Repr, DecidableEq

def hexDigit? (c : Char) : Option Nat :=
  if c.isDigit then some (c.toNat - '0'.toNat)
  else if 'a' ≤ c ∧ c ≤ 'f' then some (c.toNat - 'a'.toNat + 10)
  else if 'A' ≤ c ∧ c ≤ 'F' then some (c.toNat - 'A'.toNat + 10)
  else none

/-- The four digits of a code unit. -/
def readUnit (text : List Char) : Except Fault (Text.Taken Piece text) :=
  match text with
  | a :: b :: c :: d :: _ =>
    match [a, b, c, d].mapM hexDigit? with
    | some digits =>
      let unit := digits.foldl (fun n digit => 16 * n + digit) 0
      .ok (Text.Taken.one (.unit unit)).behind.behind.behind
    | none => .error .malformed
  | short => .error (if (Text.Utf8.encode short).length < 4 then .cut else .malformed)

/-- An escape, from after its backslash. -/
def readEscape (text : List Char) : Except Fault (Text.Taken Piece text) :=
  match text with
  | [] => .error .cut
  | c :: rest =>
    if c = 'u' then (readUnit rest).map fun t => t.behind
    else if c = '"' ∨ c = '\\' ∨ c = '/' then .ok (.one (.char c))
    else if c = 'b' then .ok (.one (.char '\x08'))
    else if c = 'f' then .ok (.one (.char '\x0c'))
    else if c = 'n' then .ok (.one (.char '\n'))
    else if c = 'r' then .ok (.one (.char '\r'))
    else if c = 't' then .ok (.one (.char '\t'))
    else .error .malformed

/-- The pieces of a text, from after its opening quote, and what follows the closing one or keeps it
from closing. -/
def readPieces (text : List Char) :
    List Piece × Except Fault { rest : List Char // rest.length < text.length } :=
  match text with
  | [] => ([], .error .cut)
  | c :: rest =>
    if c = '"' then ([], .ok ⟨rest, Nat.lt_succ_self _⟩)
    else if c = '\\' then
      match readEscape rest with
      | .error f => ([], .error f)
      | .ok t =>
        let (pieces, ending) := readPieces t.rest
        let out r := ⟨r.1, by have := r.2; have := t.shorter; simp only [List.length_cons]; omega⟩
        (t.value :: pieces, ending.map out)
    else if c.toNat < 0x20 then ([], .error .malformed)
    else
      let (pieces, ending) := readPieces rest
      (.char c :: pieces, ending.map fun r => ⟨r.1, by have := r.2; simp; omega⟩)
termination_by text.length
decreasing_by
  · have := t.shorter; simp; omega
  · simp

def isHighHalf (n : Nat) : Bool := 0xD800 ≤ n && n < 0xDC00

def isLowHalf (n : Nat) : Bool := 0xDC00 ≤ n && n < 0xE000

/-- The symbols that pieces make: two code units that are halves of a pair make one character. -/
def symbols : List Piece → List Symbol
  | [] => []
  | .char c :: rest => .char c :: symbols rest
  | [.unit n] => [if isHighHalf n || isLowHalf n then .half else .char (Char.ofNat n)]
  | .unit n :: .unit m :: rest =>
    if isHighHalf n && isLowHalf m then
      .char (Char.ofNat (0x10000 + (n - 0xD800) * 0x400 + (m - 0xDC00))) :: symbols rest
    else (if isHighHalf n || isLowHalf n then .half else .char (Char.ofNat n)) ::
      symbols (.unit m :: rest)
  | .unit n :: .char c :: rest =>
    (if isHighHalf n || isLowHalf n then .half else .char (Char.ofNat n)) :: .char c :: symbols rest

/-- Pieces without a first half at the end, whose other half may have been cut off. -/
def settled (pieces : List Piece) : List Piece :=
  match pieces.getLast? with
  | some (.unit n) => if isHighHalf n then pieces.dropLast else pieces
  | _ => pieces

/-- The fault of a text that does not close. Half a pair in it is a fault that comes earlier, for a
reader that needs the text. -/
def textBreak (pieces : List Piece) (f : Fault) : Break :=
  ⟨if .half ∈ symbols (settled pieces) then .malformed else f, f⟩

/-- A text, from after its opening quote. -/
def readText (text : List Char) : Part (Except Break (List Symbol)) text :=
  match readPieces text with
  | (pieces, .error f) => .stop (.error (textBreak pieces f))
  | (pieces, .ok rest) => ⟨.ok (symbols pieces), some rest⟩

/-! ## Values -/

def ofText : Except Break (List Symbol) → Node
  | .ok symbols => .text symbols
  | .error b => .broken b

/-- What a fault leaves of the items or fields after it. -/
def noMore {α : Type} (afterComma : Bool) (f : Fault) : List α × Ending :=
  ([], .broken afterComma (.same f))

/-- A number, which begins with its sign or a digit. -/
def readNumberPart (text : List Char) : Part Node text :=
  let (node, rest) := readNumber text
  if h : rest.length < text.length then
    match node with
    | .broken _ => .stop node
    | _ => .go node rest h
  else .stop node

mutual

/-- Read a value, in front of which there may be spaces. -/
def readNode (text : List Char) : Part Node text :=
  match h : skipSpaces text with
  | [] => .stop (.broken (.same .cut))
  | c :: rest =>
    have hr : rest.length < text.length := by
      have := length_skipSpaces text; rw [h] at this; simp at this; omega
    if c = '"' then ((readText rest).map ofText).widen (by omega)
    else if c = '[' then
      ((readItems true rest).map fun (items, ending) => Node.list items ending).widen (by omega)
    else if c = '\x7b' then
      ((readFields true rest).map fun (fields, ending) => Node.object fields ending).widen
        (by omega)
    else if c = '-' ∨ c.isDigit then
      (readNumberPart (c :: rest)).widen (by simp only [List.length_cons]; omega)
    else if c = 'n' then readWord .null "ull".toList rest text hr
    else if c = 't' then readWord (.flag true) "rue".toList rest text hr
    else if c = 'f' then readWord (.flag false) "alse".toList rest text hr
    else .stop (.broken (.same .malformed))
termination_by (text.length, 0)
decreasing_by all_goals exact Prod.Lex.left _ _ hr

/-- Read the items of a list up to its end. `first` says that none has been read. -/
def readItems (first : Bool) (text : List Char) : Part (List Node × Ending) text :=
  match h : skipSpaces text with
  | [] => .stop (noMore false .cut)
  | c :: rest =>
    have hr : rest.length < text.length := by
      have := length_skipSpaces text; rw [h] at this; simp at this; omega
    if c = ']' then .go ([], .closed) rest hr
    else if first then readItem text
    else if c ≠ ',' then .stop (noMore false .malformed)
    else
      match skipSpaces rest with
      | [] => .stop (noMore true .cut)
      | ']' :: _ => .stop (noMore true .malformed)
      | _ => (readItem rest).widen (by omega)
termination_by (text.length, 2)
decreasing_by
  · exact Prod.Lex.right _ (by omega)
  · exact Prod.Lex.left _ _ hr

/-- Read one item and those after it. -/
def readItem (text : List Char) : Part (List Node × Ending) text :=
  match readNode text with
  | ⟨node, none⟩ => .stop ([node], .closed)
  | ⟨node, some ⟨rest, h⟩⟩ =>
    ((readItems false rest).map fun (items, ending) => (node :: items, ending)).widen (by omega)
termination_by (text.length, 1)
decreasing_by
  · exact Prod.Lex.right _ (by omega)
  · exact Prod.Lex.left _ _ h

/-- Read the fields of an object up to its end. -/
def readFields (first : Bool) (text : List Char) :
    Part (List (List Symbol × Node) × Ending) text :=
  match h : skipSpaces text with
  | [] => .stop (noMore false .cut)
  | c :: rest =>
    have hr : rest.length < text.length := by
      have := length_skipSpaces text; rw [h] at this; simp at this; omega
    if c = '\x7d' then .go ([], .closed) rest hr
    else if first && c = '"' then (readField rest).widen (by omega)
    else if first || c ≠ ',' then .stop (noMore false .malformed)
    else
      match h' : skipSpaces rest with
      | [] => .stop (noMore true .cut)
      | d :: rest' =>
        have hr' : rest'.length < text.length := by
          have := length_skipSpaces rest; rw [h'] at this; simp at this; omega
        if d = '"' then (readField rest').widen (by omega)
        else .stop (noMore true .malformed)
termination_by (text.length, 0)
decreasing_by
  · exact Prod.Lex.left _ _ hr
  · exact Prod.Lex.left _ _ hr'

/-- Read one field, from after the opening quote of its name, and those after it. -/
def readField (text : List Char) : Part (List (List Symbol × Node) × Ending) text :=
  match readText text with
  | ⟨.error b, _⟩ => .stop ([], .broken false b)
  | ⟨.ok _, none⟩ => .stop ([], .broken false (.same .cut))
  | ⟨.ok name, some ⟨afterName, h⟩⟩ =>
    match h' : skipSpaces afterName with
    | [] => .stop ([(name, .broken (.same .cut))], .closed)
    | c :: rest =>
      have hr : rest.length < text.length := by
        have := length_skipSpaces afterName; rw [h'] at this; simp at this; omega
      if c ≠ ':' then .stop ([(name, .broken (.same .malformed))], .closed)
      else
        match readNode rest with
        | ⟨node, none⟩ => .stop ([(name, node)], .closed)
        | ⟨node, some ⟨rest', hr'⟩⟩ =>
          ((readFields false rest').map fun (fields, ending) =>
            ((name, node) :: fields, ending)).widen (by omega)
termination_by (text.length, 0)
decreasing_by
  · exact Prod.Lex.left _ _ hr
  · exact Prod.Lex.left _ _ (by omega)

end

/-- A document: a value, and what stands after it. -/
structure Document where
  root : Node
  rest : List Char

def Document.read (text : String) : Document :=
  let part := readNode text.toList
  ⟨part.value, (part.rest.map fun r => skipSpaces r.1).getD []⟩

end CorpusAnnotator.Json
