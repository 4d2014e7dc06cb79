import CorpusAnnotator.Number.Integer
import CorpusAnnotator.Text.Alphanumeric
import CorpusAnnotator.Text.Blank
import CorpusAnnotator.Text.Split

/-! Filters for events: directives with commas between them. A directive names a level, or a target,
a span with fields, or both, for which a level may follow an equals sign. -/
namespace CorpusAnnotator.Logging

/-- A level by name, in any case, or by number. -/
def isLevel (text : List Char) : Bool :=
  match Number.readNat64 text with
  | .ok n => n ≤ 5
  | .error _ =>
    String.ofList (text.map Char.toLower) ∈ ["off", "error", "warn", "info", "debug", "trace"]

/-- A level after an equals sign, which may be left out. -/
def isLevelOrNothing (text : List Char) : Bool := text.isEmpty || isLevel text

/-- What may follow a span: nothing, or a level. -/
def endsSpan : List Char → Bool
  | [] => true
  | '=' :: level => isLevelOrNothing level
  | _ => false

/-- The rest of a span, from after its opening bracket. Its fields, if there are any, stand in
braces. -/
def isSpan (text : List Char) : Bool :=
  let opens (c : Char) : Bool := c = ']' || c = '\x7b'
  match text.dropWhile fun c => !opens c with
  | ']' :: rest => endsSpan rest
  | _ :: rest =>
    match rest.span (· ≠ '\x7d') with
    | (field, '\x7d' :: ']' :: rest) => !field.isEmpty && endsSpan rest
    | _ => false
  | [] => false

/-- Characters that a target may begin with. -/
def beginsTarget (c : Char) : Bool :=
  c = '-' || c = ':' || c = '_' || Text.isAlphanumeric c

def isDirective (text : List Char) : Bool :=
  match Text.trim text with
  | [] => false
  | '[' :: rest => isSpan rest
  | c :: rest =>
    let divides (d : Char) : Bool := d = '=' || d = '['
    beginsTarget c &&
      match rest.dropWhile fun d => !divides d with
      | [] => true
      | '=' :: level => isLevelOrNothing level
      | _ :: rest => isSpan rest

/-- Whether a text is a filter. Between two commas there may be nothing. -/
def isFilter (text : String) : Bool :=
  (Text.split ',' text.toList).all fun part => part.isEmpty || isDirective part

/-- The variable that overrides the configured filter. -/
def variableName : String := "RUST_LOG"

/-- The filter of a level; the session runtime tells only its warnings. -/
def filterOf (level : String) : String := level ++ ",ort=warn"

/-- The filter in force: that of the environment if it is one, and else the configured level's; none
if that is no filter either. -/
def filter? (environment : List (String × String)) (level : String) : Option String :=
  match (environment.lookup variableName).filter isFilter with
  | some filter => some filter
  | none => (some (filterOf level)).filter isFilter

end CorpusAnnotator.Logging
