import CorpusAnnotator.TextFormat.Message
import CorpusAnnotator.TextFormat.Token

/-! The grammar of messages. A phrase is a derivation tree: it keeps every choice that a writer has,
its tokens are the word that it derives, and its message is what the word means. The rules are

* message: any number of fields;
* field: a name, a body, and at most one separator;
* body: a nested message or a list, each with or without a colon before it, or a colon and a scalar;
* list: nothing, or items with commas between them, in brackets;
* item: a nested message or a scalar. -/
namespace CorpusAnnotator.TextFormat

/-! ## Parts without nesting -/

/-- A field's name. The brackets of an extension belong to its name. -/
inductive NamePhrase where
  | word (text : String)
  | extension (text : String)
  deriving Repr, DecidableEq

def NamePhrase.tokens : NamePhrase → List Token
  | word text => [.word text]
  | extension text => [.mark .openBracket, .word text, .mark .closeBracket]

def NamePhrase.name : NamePhrase → String
  | word text => text
  | extension text => "[" ++ text ++ "]"

/-- A scalar: a word, or one literal and any number of them after it. -/
inductive ScalarPhrase where
  | word (text : String)
  | literals (first : String) (more : List String)
  deriving Repr, DecidableEq

def ScalarPhrase.tokens : ScalarPhrase → List Token
  | word text => [.word text]
  | literals first more => .literal first :: more.map .literal

/-- Literals next to each other are put together. -/
def ScalarPhrase.text : ScalarPhrase → String
  | word text => text
  | literals first more => first ++ more.foldr (· ++ ·) ""

/-- The marks around a nested message. -/
inductive Delimiter where
  | braces
  | angles
  deriving Repr, DecidableEq

def Delimiter.opening : Delimiter → Mark
  | braces => .openBrace
  | angles => .openAngle

def Delimiter.closing : Delimiter → Mark
  | braces => .closeBrace
  | angles => .closeAngle

/-- What may stand after a field. -/
inductive Separator where
  | nothing
  | comma
  | semicolon
  deriving Repr, DecidableEq

def Separator.tokens : Separator → List Token
  | nothing => []
  | comma => [.mark .comma]
  | semicolon => [.mark .semicolon]

/-- A colon that may be left out. -/
def colonTokens (colon : Bool) : List Token :=
  if colon then [.mark .colon] else []

/-! ## Messages -/

mutual

inductive MessagePhrase where
  | empty
  | field (name : NamePhrase) (body : BodyPhrase) (separator : Separator) (rest : MessagePhrase)

/-- What stands after a field's name. -/
inductive BodyPhrase where
  | nested (colon : Bool) (delimiter : Delimiter) (fields : MessagePhrase)
  | emptyList (colon : Bool)
  | list (colon : Bool) (items : ItemsPhrase)
  | scalar (scalar : ScalarPhrase)

/-- The items of a list that has some. -/
inductive ItemsPhrase where
  | last (item : ItemPhrase)
  | more (item : ItemPhrase) (rest : ItemsPhrase)

inductive ItemPhrase where
  | nested (delimiter : Delimiter) (fields : MessagePhrase)
  | scalar (scalar : ScalarPhrase)

end

mutual

def MessagePhrase.tokens : MessagePhrase → List Token
  | .empty => []
  | .field name body separator rest =>
    name.tokens ++ (body.tokens ++ (separator.tokens ++ rest.tokens))

def BodyPhrase.tokens : BodyPhrase → List Token
  | .nested colon delimiter fields =>
    colonTokens colon ++ .mark delimiter.opening :: (fields.tokens ++ [.mark delimiter.closing])
  | .emptyList colon => colonTokens colon ++ [.mark .openBracket, .mark .closeBracket]
  | .list colon items =>
    colonTokens colon ++ .mark .openBracket :: (items.tokens ++ [.mark .closeBracket])
  | .scalar scalar => .mark .colon :: scalar.tokens

def ItemsPhrase.tokens : ItemsPhrase → List Token
  | .last item => item.tokens
  | .more item rest => item.tokens ++ .mark .comma :: rest.tokens

def ItemPhrase.tokens : ItemPhrase → List Token
  | .nested delimiter fields =>
    .mark delimiter.opening :: (fields.tokens ++ [.mark delimiter.closing])
  | .scalar scalar => scalar.tokens

end

mutual

/-- The fields in their order, one for each value of a body. -/
def MessagePhrase.message : MessagePhrase → Message
  | .empty => []
  | .field name body _ rest => body.values.map (name.name, ·) ++ rest.message

def BodyPhrase.values : BodyPhrase → List Value
  | .nested _ _ fields => [.message fields.message]
  | .emptyList _ => []
  | .list _ items => items.values
  | .scalar scalar => [.scalar scalar.text]

def ItemsPhrase.values : ItemsPhrase → List Value
  | .last item => [item.value]
  | .more item rest => item.value :: rest.values

def ItemPhrase.value : ItemPhrase → Value
  | .nested _ fields => .message fields.message
  | .scalar scalar => .scalar scalar.text

end

end CorpusAnnotator.TextFormat
