import CorpusAnnotator.Toml.Quoted
import CorpusAnnotator.Toml.Scalar
import CorpusAnnotator.Toml.Table

/-! Reading TOML: keys, values, and the statements that a document is made of. -/
namespace CorpusAnnotator.Toml

open Text (Taken Left)

/-- A key is one or more names. -/
structure Key where
  first : String
  more : List String
  deriving Repr, DecidableEq

def Key.toList (k : Key) : List String := k.first :: k.more

/-- The names before the last, and the last. -/
def Key.path (k : Key) : List String := k.toList.dropLast

def Key.last (k : Key) : String := k.more.getLast?.getD k.first

/-- One line of a document: a value for a key, or a heading that says where the keys after it go. -/
inductive Statement where
  | assign (key : Key) (value : Value)
  | heading (key : Key)
  | element (key : Key)
  deriving Repr

/-- Keys have fewer names than this, and values are nested less deep. -/
def depthLimit : Nat := 80

/-! ## Between values -/

/-- Skip a comment up to the end of its line. -/
def skipComment (text : List Char) : Left Unit text :=
  match text with
  | '#' :: rest => ((Left.while isLineChar rest).map fun _ => ()).behind.toLeft
  | _ => .unread ()

/-- Skip spaces, line endings, and comments that a line ending follows. -/
def skipTrivia (text : List Char) : Left Unit text :=
  match text with
  | [] => .unread ()
  | c :: rest =>
    if isSpace c then
      let t := skipTrivia rest
      ⟨(), t.rest, Nat.le_succ_of_le t.notLonger⟩
    else
      let ⟨_, after, h⟩ := skipComment (c :: rest)
      match newline? after with
      | some ⟨_, rest', h'⟩ =>
        let t := skipTrivia rest'
        ⟨(), t.rest, Nat.le_trans t.notLonger (Nat.le_trans (Nat.le_of_lt h') h)⟩
      | none => .unread ()
termination_by text.length
decreasing_by all_goals simp only [List.length_cons] at *; omega

/-- The rest of a line after something complete: spaces, perhaps a comment, and the line ending or
the end of the document. -/
def lineEnd? (text : List Char) : Option (Left Unit text) :=
  let ⟨_, rest, h⟩ := skipSpaces text
  let ⟨_, rest, h'⟩ := skipComment rest
  if rest.isEmpty then some ⟨(), rest, Nat.le_trans h' h⟩
  else (newline? rest).map fun t => t.toLeft.widen (Nat.le_trans h' h)

/-- Read one given character. -/
def char? (c : Char) (text : List Char) : Option (Taken Unit text) :=
  match text with
  | [] => none
  | d :: _ => if d = c then some (.one ()) else none

/-! ## Keys -/

def isBareKeyChar (c : Char) : Bool := c.isAlphanum || c = '_' || c = '-'

/-- A name: bare, or a string on one line. -/
def name? (text : List Char) : Option (Taken String text) :=
  match text with
  | [] => none
  | '"' :: rest => (basic? rest).map fun t => (t.map String.ofList).behind
  | '\'' :: rest => (literal? rest).map fun t => (t.map String.ofList).behind
  | c :: rest =>
    if isBareKeyChar c then
      some ((Left.while isBareKeyChar rest).map fun more => String.ofList (c :: more)).behind
    else none

/-- Names with points between them; spaces may stand around each name. -/
def names? (text : List Char) : Option (Taken (List String) text) := do
  let ⟨_, rest, h⟩ := skipSpaces text
  let ⟨name, rest, h'⟩ ← name? rest
  let ⟨_, rest, h''⟩ := skipSpaces rest
  match char? '.' rest with
  | none => return ⟨[name], rest, by omega⟩
  | some ⟨_, rest, h'''⟩ => do
    let ⟨more, rest, h''''⟩ ← names? rest
    return ⟨name :: more, rest, by omega⟩
termination_by text.length

def key? (text : List Char) : Option (Taken Key text) := do
  let t ← names? text
  match t.value with
  | [] => none
  | first :: more =>
    if more.length + 1 < depthLimit then return t.map fun _ => ⟨first, more⟩ else none

/-! ## Values -/

/-- Characters of words, which are scalars written without quotes. -/
def isWordChar (c : Char) : Bool :=
  c.isAlphanum || c = '_' || c = '+' || c = '-' || c = '.' || c = ':'

/-- A time that follows a date after one space: it begins with two digits and a colon. -/
def spacedTime? (text : List Char) : Option (Taken (List Char) text) :=
  match text with
  | ' ' :: a :: b :: ':' :: rest =>
    if a.isDigit && b.isDigit then
      let t := Left.while isWordChar rest
      some ⟨a :: b :: ':' :: t.value, t.rest, by have := t.notLonger; simp; omega⟩
    else none
  | _ => none

/-- A scalar without quotes. -/
def word? (text : List Char) : Option (Taken Value text) :=
  match text with
  | [] => none
  | c :: rest =>
    if isWordChar c then
      let ⟨more, rest', h⟩ := Left.while isWordChar rest
      let word := c :: more
      match date? word, spacedTime? rest' with
      | some (date, []), some ⟨time, rest'', h'⟩ =>
        (timeAndOffset? time).map fun shown =>
          ⟨.moment (String.ofList (date ++ 'T' :: shown)), rest'', by
            simp only [List.length_cons]; omega⟩
      | _, _ => (scalar? word).map fun v => ⟨v, rest', Nat.lt_succ_of_le h⟩
    else none

/-- The table of pairs in the order in which they are written, if no two of them clash. -/
def inlineTable? (pairs : List (Key × Value)) : Option Value :=
  let put (t : Table) (pair : Key × Value) : Option Table :=
    t.add pair.1.path pair.1.last pair.2
  (pairs.foldlM put Table.written).map fun t => .table (Item.toEntries t.entries)

mutual

/-- A value that may hold values in its turn as deep as `depth`. -/
def value? (depth : Nat) (text : List Char) : Option (Taken Value text) :=
  match text with
  | [] => none
  | c :: rest =>
    if c = '"' ∨ c = '\'' then
      (quoted? (c :: rest)).map fun t => t.map fun cs => .text (String.ofList cs)
    else if c = '[' then
      match depth with
      | 0 => none
      | depth + 1 =>
        (elements? depth rest).map fun t => (t.map Value.list).behind
    else if c = '\x7b' then
      match depth with
      | 0 => none
      | depth + 1 => do
        let ⟨_, inside, h⟩ := skipSpaces rest
        let ⟨pairs, rest', h'⟩ ←
          match char? '\x7d' inside with
          | some ⟨_, rest', h'⟩ => some (⟨[], rest', h'⟩ : Taken _ inside)
          | none => pairs? depth inside
        let table ← inlineTable? pairs
        return ⟨table, rest', by simp only [List.length_cons]; omega⟩
    else word? (c :: rest)
termination_by 2 * text.length
decreasing_by all_goals simp only [List.length_cons] at *; omega

/-- The rest of a list, from after its opening bracket or a comma. -/
def elements? (depth : Nat) (text : List Char) : Option (Taken (List Value) text) := do
  let ⟨_, rest, h⟩ := skipTrivia text
  match char? ']' rest with
  | some ⟨_, rest, h'⟩ => return ⟨[], rest, by omega⟩
  | none => do
    let ⟨v, rest, h'⟩ ← value? depth rest
    let ⟨_, rest, h''⟩ := skipTrivia rest
    match char? ',' rest with
    | some ⟨_, rest, h'''⟩ => do
      let ⟨more, rest, h''''⟩ ← elements? depth rest
      return ⟨v :: more, rest, by omega⟩
    | none => do
      let ⟨_, rest, h'''⟩ ← char? ']' rest
      return ⟨[v], rest, by omega⟩
termination_by 2 * text.length + 1
decreasing_by all_goals omega

/-- The pairs of an inline table, of which there is at least one, and its closing brace. -/
def pairs? (depth : Nat) (text : List Char) : Option (Taken (List (Key × Value)) text) := do
  let ⟨key, rest, h⟩ ← key? text
  let ⟨_, rest, h'⟩ ← char? '=' rest
  let ⟨_, rest, h''⟩ := skipSpaces rest
  let ⟨v, rest, h'''⟩ ← value? depth rest
  let ⟨_, rest, h''''⟩ := skipSpaces rest
  match char? ',' rest with
  | some ⟨_, rest, h5⟩ => do
    let ⟨more, rest, h6⟩ ← pairs? depth rest
    return ⟨(key, v) :: more, rest, by omega⟩
  | none => do
    let ⟨_, rest, h5⟩ ← char? '\x7d' rest
    return ⟨[(key, v)], rest, by omega⟩
termination_by 2 * text.length + 1
decreasing_by all_goals omega

end

/-! ## Statements -/

/-- A heading, read from its first bracket to the end of its line. -/
def heading? (text : List Char) : Option (Taken Statement text) :=
  match text with
  | '[' :: '[' :: rest => do
    let ⟨key, rest, h⟩ ← key? rest
    let ⟨_, rest, h'⟩ ← char? ']' rest
    let ⟨_, rest, h''⟩ ← char? ']' rest
    let ⟨_, rest, h'''⟩ ← lineEnd? rest
    return ⟨.element key, rest, by simp only [List.length_cons]; omega⟩
  | '[' :: rest => do
    let ⟨key, rest, h⟩ ← key? rest
    let ⟨_, rest, h'⟩ ← char? ']' rest
    let ⟨_, rest, h''⟩ ← lineEnd? rest
    return ⟨.heading key, rest, by simp only [List.length_cons]; omega⟩
  | _ => none

/-- A key, an equals sign and a value, to the end of the line. -/
def assignment? (text : List Char) : Option (Taken Statement text) := do
  let ⟨key, rest, h⟩ ← key? text
  let ⟨_, rest, h'⟩ ← char? '=' rest
  let ⟨_, rest, h''⟩ := skipSpaces rest
  let ⟨v, rest, h'''⟩ ← value? (depthLimit - 1) rest
  let ⟨_, rest, h''''⟩ ← lineEnd? rest
  return ⟨.assign key v, rest, by omega⟩

/-- A line that holds a comment or nothing. -/
def emptyLine? (text : List Char) : Option (Taken Unit text) :=
  match text with
  | '#' :: rest =>
    let ⟨_, after, h⟩ := Left.while isLineChar rest
    if after.isEmpty then some ⟨(), after, Nat.lt_succ_of_le h⟩
    else (newline? after).map (·.widen (Nat.le_succ_of_le h))
  | text => newline? text

/-- The statements of a document. -/
def statements? (text : List Char) : Option (List Statement) :=
  let ⟨_, rest, _⟩ := skipSpaces text
  match rest with
  | [] => some []
  | c :: after =>
    if c = '#' ∨ c = '\n' ∨ c = '\r' then
      match emptyLine? (c :: after) with
      | none => none
      | some ⟨_, rest, _⟩ => statements? rest
    else
      match (if c = '[' then heading? (c :: after) else assignment? (c :: after)) with
      | none => none
      | some ⟨s, rest, _⟩ => (statements? rest).map (s :: ·)
termination_by text.length
decreasing_by all_goals omega

end CorpusAnnotator.Toml
