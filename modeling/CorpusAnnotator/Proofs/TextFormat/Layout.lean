import CorpusAnnotator.Proofs.TextFormat.Grammar
import CorpusAnnotator.Text.Blank

/-! How tokens may be written. Every choice is left open: what stands between tokens, which quotes a
literal has, and whether a character inside them is written as it is or byte by byte. -/
namespace CorpusAnnotator.TextFormat

/-! ## Between tokens -/

/-- Blanks, and comments with the end of their line. -/
inductive Gap : List Char → Prop where
  | none : Gap []
  | blank {c : Char} {text : List Char} : Text.isBlank c = true → Gap text → Gap (c :: text)
  | comment {body text : List Char} :
      '\n' ∉ body → Gap text → Gap ('#' :: (body ++ '\n' :: text))

/-! ## Literals -/

def namedEscapes : List (Char × UInt8) :=
  [('n', 10), ('t', 9), ('r', 13), ('\\', 92), ('"', 34), ('\'', 39)]

/-- A hexadecimal digit in both cases. -/
def hexDigitChars (n : Nat) : List Char :=
  [n.digitChar, n.digitChar.toUpper]

/-- The escapes of one byte, without the backslash. -/
inductive EscapeForm : UInt8 → List Char → Prop where
  | named {c : Char} {byte : UInt8} : (c, byte) ∈ namedEscapes → EscapeForm byte [c]
  | hex {m n : Nat} {a b : Char} : m < 16 → n < 16 → a ∈ hexDigitChars m → b ∈ hexDigitChars n →
      EscapeForm (UInt8.ofNat (16 * m + n)) ['x', a, b]
  | octal {a b c : Nat} : a < 4 → b < 8 → c < 8 →
      EscapeForm (UInt8.ofNat (64 * a + 8 * b + c)) [a.digitChar, b.digitChar, c.digitChar]

/-- Bytes that are escaped one by one. -/
inductive Escapes : List UInt8 → List Char → Prop where
  | nil : Escapes [] []
  | cons {byte : UInt8} {bytes : List UInt8} {form text : List Char} :
      EscapeForm byte form → Escapes bytes text → Escapes (byte :: bytes) ('\\' :: (form ++ text))

/-- The characters of a literal, and what stands for them inside the quotes. -/
inductive LiteralBody (quote : Char) : List Char → List Char → Prop where
  | nil : LiteralBody quote [] []
  | raw {c : Char} {cs text : List Char} : c ≠ '\n' → c ≠ '\\' → c ≠ quote →
      LiteralBody quote cs text → LiteralBody quote (c :: cs) (c :: text)
  | escaped {c : Char} {cs form text : List Char} : Escapes (String.utf8EncodeChar c) form →
      LiteralBody quote cs text → LiteralBody quote (c :: cs) (form ++ text)

/-! ## Tokens -/

inductive Spelling : Token → List Char → Prop where
  | word {cs : List Char} : cs ≠ [] → (∀ c ∈ cs, isWordChar c = true) →
      Spelling (.word (String.ofList cs)) cs
  | literal {quote : Char} {cs body : List Char} : quote = '"' ∨ quote = '\'' →
      LiteralBody quote cs body →
      Spelling (.literal (String.ofList cs)) (quote :: (body ++ [quote]))
  | mark (m : Mark) : Spelling (.mark m) [m.char]

def Token.isWord : Token → Bool
  | .word _ => true
  | _ => false

/-- Tokens with anything between them and at both ends. Only two words need something between them;
`afterWord` says that one stands in front. -/
inductive Layout : Bool → List Token → List Char → Prop where
  | nil {afterWord : Bool} {gap : List Char} : Gap gap → Layout afterWord [] gap
  | cons {afterWord : Bool} {t : Token} {ts : List Token} {gap form text : List Char} :
      Gap gap → (afterWord = true → t.isWord = true → gap ≠ []) → Spelling t form →
      Layout t.isWord ts text → Layout afterWord (t :: ts) (gap ++ (form ++ text))

/-- A mark needs nothing in front of it. -/
theorem Layout.mark {afterWord : Bool} {ts : List Token} {text : List Char} (m : Mark)
    (h : Layout false ts text) : Layout afterWord (.mark m :: ts) (m.char :: text) :=
  .cons .none (fun _ hm => by cases hm) (.mark m) h

/-- A text that is one of the ways of writing `m`. -/
def Message.Writes (m : Message) (text : String) : Prop :=
  ∃ p : MessagePhrase, p.message = m ∧ Layout false p.tokens text.toList

/-! ## Names -/

def IsWord (text : String) : Prop :=
  text.toList ≠ [] ∧ ∀ c ∈ text.toList, isWordChar c = true

/-- A name that a field can have. -/
def IsName (name : String) : Prop :=
  IsWord name ∨ ∃ word, IsWord word ∧ name = "[" ++ word ++ "]"

mutual

def Value.WellNamed : Value → Prop
  | .scalar _ => True
  | .message fields => WellNamedFields fields

/-- Every field has a name that it can have, on all levels. -/
def WellNamedFields : List (String × Value) → Prop
  | [] => True
  | (name, value) :: fields => IsName name ∧ value.WellNamed ∧ WellNamedFields fields

end

end CorpusAnnotator.TextFormat
