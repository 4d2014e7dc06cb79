import CorpusAnnotator.TextFormat.Token
import CorpusAnnotator.Text.Utf8

/-! Why a text is refused, and on which line. -/
namespace CorpusAnnotator.TextFormat

inductive Cause where
  | unterminatedLiteral
  | danglingEscape
  | badHexEscape
  | octalTooLarge (value : Nat)
  | unknownEscape (c : Char)
  | notUtf8 (error : Text.Utf8.Error)
  | unexpectedChar (c : Char)
  | missing (close : Mark)
  | noFieldName (found : Option Token)
  | malformedExtension
  | noValue (found : Option Token)
  | openList (name : String)
  | bareField (name : String)
  deriving Repr, DecidableEq

/-- A text is refused at one place, the first at which reading cannot go on. -/
structure Error where
  line : Nat
  cause : Cause
  deriving Repr, DecidableEq

def Cause.message : Cause → String
  | .unterminatedLiteral => "unterminated string"
  | .danglingEscape => "dangling escape"
  | .badHexEscape => "bad hex escape"
  | .octalTooLarge value =>
    "octal escape \\" ++ String.ofList (Nat.toDigits 8 value) ++ " out of range"
  | .unknownEscape c => "unknown escape '\\" ++ c.toString ++ "'"
  | .notUtf8 error => "string is not valid UTF-8: " ++ error.message
  | .unexpectedChar c => "unexpected character '" ++ c.toString ++ "'"
  | .missing close => "missing '" ++ close.char.toString ++ "'"
  | .noFieldName none => "expected field name"
  | .noFieldName (some token) => "expected field name, found " ++ token.shown
  | .malformedExtension => "malformed extension name"
  | .noValue none => "expected value"
  | .noValue (some token) => "expected value, found " ++ token.shown
  | .openList name => "expected ']' closing list '" ++ name ++ "'"
  | .bareField name => "expected ':' or message after '" ++ name ++ "'"

def Error.message (e : Error) : String :=
  s!"line {e.line}: " ++ e.cause.message

end CorpusAnnotator.TextFormat
