import CorpusAnnotator.Text.Taken

/-! Strings of TOML: basic ones with escapes and literal ones without, on one line or on several. -/
namespace CorpusAnnotator.Toml

open Text (Taken Left)

/-- Characters that may stand on a line: a tab, printable ASCII, and everything beyond ASCII. -/
def isLineChar (c : Char) : Bool :=
  c = '\t' || (' ' ≤ c && c ≤ '~') || 0x80 ≤ c.toNat

/-- Read a line ending, which is a newline with or without a carriage return before it. -/
def newline? (text : List Char) : Option (Taken Unit text) :=
  match text with
  | '\n' :: _ => some (.one ())
  | '\r' :: '\n' :: rest => some ⟨(), rest, by simp only [List.length_cons]; omega⟩
  | _ => none

/-- Skip one line ending if it comes next. -/
def skipNewline (text : List Char) : Left Unit text :=
  match newline? text with
  | some t => t.toLeft
  | none => .unread ()

def isSpace (c : Char) : Bool := c = ' ' || c = '\t'

def skipSpaces (text : List Char) : Left Unit text :=
  (Left.while isSpace text).map fun _ => ()

/-- Skip spaces and line endings. -/
def skipSpacesAndNewlines (text : List Char) : Left Unit text :=
  match text with
  | [] => .unread ()
  | c :: rest =>
    if isSpace c then
      let t := skipSpacesAndNewlines rest
      ⟨(), t.rest, Nat.le_succ_of_le t.notLonger⟩
    else
      match newline? (c :: rest) with
      | some ⟨_, rest', h⟩ =>
        let t := skipSpacesAndNewlines rest'
        ⟨(), t.rest, Nat.le_trans t.notLonger (Nat.le_of_lt h)⟩
      | none => .unread ()
termination_by text.length
decreasing_by all_goals first | assumption | exact Nat.lt_succ_self _

def hexDigit? (c : Char) : Option Nat :=
  if c.isDigit then some (c.toNat - '0'.toNat)
  else if 'a' ≤ c ∧ c ≤ 'f' then some (c.toNat - 'a'.toNat + 10)
  else if 'A' ≤ c ∧ c ≤ 'F' then some (c.toNat - 'A'.toNat + 10)
  else none

/-- The character of a code point written with a fixed number of digits. -/
def charOfDigits? (digits : List Char) : Option Char := do
  let values ← digits.mapM hexDigit?
  let n := values.foldl (fun v d => 16 * v + d) 0
  if n.isValidChar then some (Char.ofNat n) else none

/-- The character that an escape stands for, read from after its backslash. -/
def escape? (text : List Char) : Option (Taken Char text) :=
  match text with
  | 'b' :: _ => some (.one '\x08')
  | 't' :: _ => some (.one '\t')
  | 'n' :: _ => some (.one '\n')
  | 'f' :: _ => some (.one '\x0c')
  | 'r' :: _ => some (.one '\r')
  | '"' :: _ => some (.one '"')
  | '\\' :: _ => some (.one '\\')
  | 'u' :: a :: b :: c :: d :: rest =>
    (charOfDigits? [a, b, c, d]).map fun x => ⟨x, rest, by simp only [List.length_cons]; omega⟩
  | 'U' :: a :: b :: c :: d :: e :: f :: g :: h :: rest =>
    (charOfDigits? [a, b, c, d, e, f, g, h]).map fun x =>
      ⟨x, rest, by simp only [List.length_cons]; omega⟩
  | _ => none

/-- A basic string on one line, read from after its opening quote. -/
def basic? (text : List Char) : Option (Taken (List Char) text) :=
  match text with
  | [] => none
  | c :: rest =>
    if c = '"' then some (.one [])
    else if c = '\\' then do
      let x ← escape? rest
      let xs ← basic? x.rest
      return (x.andThen (xs.map (x.value :: ·))).behind
    else if isLineChar c then do
      let xs ← basic? rest
      return (xs.map (c :: ·)).behind
    else none
termination_by text.length
decreasing_by
  · exact Nat.lt_succ_of_lt x.shorter
  · exact Nat.lt_succ_self _

/-- A literal string on one line, read from after its opening quote. -/
def literal? (text : List Char) : Option (Taken (List Char) text) :=
  match text with
  | [] => none
  | c :: rest =>
    if c = '\'' then some (.one [])
    else if isLineChar c then do
      let xs ← literal? rest
      return (xs.map (c :: ·)).behind
    else none

/-- The end of a string of several lines: three quotes, of which up to two more stand before it and
belong to the string. -/
def closing? (quote : Char) (text : List Char) : Option (Taken (List Char) text) :=
  match text with
  | a :: b :: c :: rest =>
    if a = quote ∧ b = quote ∧ c = quote then
      let more := (rest.take 2).takeWhile (· = quote)
      some ⟨more, rest.drop more.length, by
        simp only [List.length_cons, List.length_drop]; omega⟩
    else none
  | _ => none

/-- A basic string of several lines, read from after its opening quotes. A backslash at the end of a
line drops the blanks and line endings up to the next character. -/
def longBasic? (text : List Char) : Option (Taken (List Char) text) :=
  match closing? '"' text with
  | some t => some t
  | none =>
    match text with
    | [] => none
    | c :: rest =>
      if c = '\\' then
        let ⟨_, spaces, h⟩ := skipSpaces rest
        match newline? spaces with
        | some ⟨_, after, h'⟩ => do
          let ⟨_, after, h''⟩ := skipSpacesAndNewlines after
          let ⟨xs, rest, h'''⟩ ← longBasic? after
          return ⟨xs, rest, by simp only [List.length_cons]; omega⟩
        | none => do
          let ⟨x, rest, h⟩ ← escape? rest
          let ⟨xs, rest, h'⟩ ← longBasic? rest
          return ⟨x :: xs, rest, by simp only [List.length_cons]; omega⟩
      else if isLineChar c then do
        let ⟨xs, rest, h⟩ ← longBasic? rest
        return ⟨c :: xs, rest, by simp only [List.length_cons]; omega⟩
      else do
        let ⟨_, rest', h⟩ ← newline? (c :: rest)
        let ⟨xs, rest, h'⟩ ← longBasic? rest'
        return ⟨'\n' :: xs, rest, by omega⟩
termination_by text.length
decreasing_by all_goals simp only [List.length_cons] at *; omega

/-- A literal string of several lines, read from after its opening quotes. -/
def longLiteral? (text : List Char) : Option (Taken (List Char) text) :=
  match closing? '\'' text with
  | some t => some t
  | none =>
    match text with
    | [] => none
    | c :: rest =>
      if isLineChar c then do
        let ⟨xs, rest, h⟩ ← longLiteral? rest
        return ⟨c :: xs, rest, by simp only [List.length_cons]; omega⟩
      else do
        let ⟨_, rest', h⟩ ← newline? (c :: rest)
        let ⟨xs, rest, h'⟩ ← longLiteral? rest'
        return ⟨'\n' :: xs, rest, by omega⟩
termination_by text.length
decreasing_by all_goals simp only [List.length_cons] at *; omega

/-- A string of any kind. A line ending right after three opening quotes is dropped. -/
def quoted? (text : List Char) : Option (Taken (List Char) text) :=
  match text with
  | '"' :: '"' :: '"' :: rest =>
    let ⟨_, rest', h⟩ := skipNewline rest
    (longBasic? rest').map (·.widen (by simp only [List.length_cons]; omega))
  | '"' :: rest => (basic? rest).map (·.behind)
  | '\'' :: '\'' :: '\'' :: rest =>
    let ⟨_, rest', h⟩ := skipNewline rest
    (longLiteral? rest').map (·.widen (by simp only [List.length_cons]; omega))
  | '\'' :: rest => (literal? rest).map (·.behind)
  | _ => none

end CorpusAnnotator.Toml
