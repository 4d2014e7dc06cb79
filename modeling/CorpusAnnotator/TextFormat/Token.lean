import CorpusAnnotator.Text.Alphanumeric
import CorpusAnnotator.Text.Quoted

/-! Tokens of the text format: words, string literals and marks. -/
namespace CorpusAnnotator.TextFormat

/-- The nine marks. -/
inductive Mark where
  | openBrace
  | closeBrace
  | openAngle
  | closeAngle
  | openBracket
  | closeBracket
  | colon
  | comma
  | semicolon
  deriving Repr, DecidableEq

namespace Mark

def char : Mark → Char
  | openBrace => '\x7b'
  | closeBrace => '\x7d'
  | openAngle => '<'
  | closeAngle => '>'
  | openBracket => '['
  | closeBracket => ']'
  | colon => ':'
  | comma => ','
  | semicolon => ';'

def all : List Mark :=
  [openBrace, closeBrace, openAngle, closeAngle, openBracket, closeBracket, colon, comma, semicolon]

def ofChar? (c : Char) : Option Mark :=
  all.find? fun m => m.char = c

theorem ofChar?_char (m : Mark) : ofChar? m.char = some m := by
  cases m <;> decide

theorem char_of_ofChar? {c : Char} {m : Mark} (h : ofChar? c = some m) : m.char = c := by
  simpa using List.find?_some h

end Mark

/-- A token. A literal holds the text it spells, without its quotes. -/
inductive Token where
  | word (text : String)
  | literal (text : String)
  | mark (m : Mark)
  deriving Repr, DecidableEq

/-- A token and the line on which it starts. -/
structure Located where
  token : Token
  line : Nat
  deriving Repr, DecidableEq

/-- Words are made of letters, numbers, low lines, points and signs. -/
def isWordChar (c : Char) : Bool :=
  Text.isAlphanumeric c || c = '_' || c = '.' || c = '-' || c = '+'

/-- A token as it is shown in messages. -/
def Token.shown : Token → String
  | .word text => "Ident(" ++ Text.quoted text ++ ")"
  | .literal text => "Str(" ++ Text.quoted text ++ ")"
  | .mark m => "Punct(" ++ Text.quotedChar m.char ++ ")"

end CorpusAnnotator.TextFormat
