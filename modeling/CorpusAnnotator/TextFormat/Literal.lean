import CorpusAnnotator.Text.Taken
import CorpusAnnotator.TextFormat.Error

/-! String literals. Inside the quotes a backslash starts an escape, which stands for one byte; any
other character stands for the bytes of its UTF-8 form. The bytes of the whole literal have to be
UTF-8. -/
namespace CorpusAnnotator.TextFormat

open Text (Taken)

def hexDigit? (c : Char) : Option Nat :=
  if c.isDigit then some (c.toNat - '0'.toNat)
  else if 'a' ≤ c ∧ c ≤ 'f' then some (c.toNat - 'a'.toNat + 10)
  else if 'A' ≤ c ∧ c ≤ 'F' then some (c.toNat - 'A'.toNat + 10)
  else none

def octalDigit? (c : Char) : Option Nat :=
  if '0' ≤ c ∧ c ≤ '7' then some (c.toNat - '0'.toNat) else none

/-- Escapes named by one character. -/
def namedEscape? (c : Char) : Option UInt8 :=
  if c = 'n' then some 10
  else if c = 't' then some 9
  else if c = 'r' then some 13
  else if c = '\\' then some 92
  else if c = '"' then some 34
  else if c = '\'' then some 39
  else none

/-- Go on with an octal number of which `value` has been read, for at most `more` digits. -/
def octalDigits : (more value : Nat) → List Char → Nat × List Char
  | 0, value, text => (value, text)
  | _ + 1, value, [] => (value, [])
  | more + 1, value, c :: rest =>
    match octalDigit? c with
    | some d => octalDigits more (8 * value + d) rest
    | none => (value, c :: rest)

theorem octalDigits_length_le (more value : Nat) (text : List Char) :
    (octalDigits more value text).2.length ≤ text.length := by
  induction more generalizing value text with
  | zero => simp [octalDigits]
  | succ more ih =>
    cases text with
    | nil => simp [octalDigits]
    | cons c rest =>
      unfold octalDigits
      split
      · exact Nat.le_trans (ih _ rest) (by simp)
      · simp

/-- The byte that an escape stands for, read from after the backslash. -/
def escape : (text : List Char) → Except Cause (Taken UInt8 text)
  | [] => .error .danglingEscape
  | c :: rest =>
    match namedEscape? c with
    | some byte => .ok (.one byte)
    | none =>
      if c = 'x' then
        match rest with
        | a :: b :: _ =>
          match hexDigit? a, hexDigit? b with
          | some m, some n => .ok (Taken.one (UInt8.ofNat (16 * m + n))).behind.behind
          | _, _ => .error .badHexEscape
        | _ => .error .badHexEscape
      else
        match octalDigit? c with
        | none => .error (.unknownEscape c)
        | some d =>
          let value := (octalDigits 2 d rest).1
          if value < 256 then
            .ok ⟨UInt8.ofNat value, (octalDigits 2 d rest).2,
              Nat.lt_succ_of_le (octalDigits_length_le 2 d rest)⟩
          else .error (.octalTooLarge value)

/-- The bytes of a literal, read from after its opening quote to after its closing one. -/
def literalBytes (quote : Char) (text : List Char) : Except Cause (Taken (List UInt8) text) :=
  match text with
  | [] => .error .unterminatedLiteral
  | c :: rest =>
    if c = '\n' then .error .unterminatedLiteral
    else if c = quote then .ok (.one [])
    else if c = '\\' then do
      let byte ← escape rest
      let bytes ← literalBytes quote byte.rest
      return (byte.andThen (bytes.map (byte.value :: ·))).behind
    else do
      let bytes ← literalBytes quote rest
      return (bytes.map (String.utf8EncodeChar c ++ ·)).behind
termination_by text.length
decreasing_by
  · exact Nat.lt_succ_of_lt byte.shorter
  · exact Nat.lt_succ_self _

/-- The text of a literal. -/
def literal (quote : Char) (text : List Char) : Except Cause (Taken String text) := do
  let taken ← literalBytes quote text
  match Text.Utf8.decode taken.value with
  | .ok chars => return taken.map fun _ => String.ofList chars
  | .error e => throw (.notUtf8 e)

end CorpusAnnotator.TextFormat
