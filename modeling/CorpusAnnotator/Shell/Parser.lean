import CorpusAnnotator.Shell.Script

/-! Reading shell scripts. -/
namespace CorpusAnnotator.Shell

/-- Where reading stands. -/
structure Cursor where
  rest : List Char
  line : Nat
  deriving Repr, DecidableEq

namespace Cursor

/-- Go past characters, counting lines. -/
def skip (c : Cursor) (n : Nat) : Cursor :=
  ⟨c.rest.drop n, c.line + (c.rest.take n).count '\n'⟩

def startsWith (c : Cursor) (text : String) : Bool := text.toList.isPrefixOf c.rest

/-- Go past a text that has to be there. -/
def past? (c : Cursor) (text : String) : Option Cursor :=
  if c.startsWith text then some (c.skip text.length) else none

def skipWhile (c : Cursor) (p : Char → Bool) : Cursor :=
  c.skip (c.rest.takeWhile p).length

end Cursor

def isGap (c : Char) : Bool := c = ' ' || c = '\t'

/-- Characters that end a word. -/
def isMeta (c : Char) : Bool :=
  isGap c || c = '\n' || c = ';' || c = '&' || c = '|' || c = '<' || c = '>' || c = '(' || c = ')'

def isNameStart (c : Char) : Bool := c.isAlpha || c = '_'

def isNameChar (c : Char) : Bool := isNameStart c || c.isDigit

/-- Spaces, joined lines, and a comment. -/
def skipGaps (c : Cursor) : Cursor :=
  go c.rest.length c
where
  go : (fuel : Nat) → Cursor → Cursor
    | 0, c => c
    | fuel + 1, c =>
      match c.rest with
      | '\\' :: '\n' :: _ => go fuel (c.skip 2)
      | '#' :: _ => c.skipWhile (· ≠ '\n')
      | d :: _ => if isGap d then go fuel (c.skip 1) else c
      | [] => c

/-- Gaps and the ends of lines. -/
def skipLines (c : Cursor) : Cursor :=
  go c.rest.length c
where
  go : (fuel : Nat) → Cursor → Cursor
    | 0, c => c
    | fuel + 1, c =>
      let c := skipGaps c
      match c.rest with
      | '\n' :: _ => go fuel (c.skip 1)
      | _ => c

/-- The unquoted word in front, as far as it can be a keyword. -/
def keyword (c : Cursor) : String :=
  let word := c.rest.takeWhile fun d => !isMeta d
  if word = ['!'] ∨ word = ['\x7b'] ∨ word = ['\x7d'] ∨ word.all Char.isAlpha then
    String.ofList word
  else ""

def past? (c : Cursor) (word : String) : Option Cursor :=
  let c := skipLines c
  if keyword c = word then some (c.skip word.length) else none

/-! ## Words -/

/-- What surrounds the parts of a word. -/
inductive Setting where
  | bare
  | doubled
  | braced
  | arithmetic
  deriving Repr, DecidableEq

/-- Whether parts end here. -/
def Setting.ends (s : Setting) (c : Cursor) : Bool :=
  match c.rest with
  | [] => true
  | d :: rest =>
    match s with
    | .bare => isMeta d
    | .doubled => d = '"'
    | .braced => d = '\x7d'
    | .arithmetic => d = ')' && rest.head? = some ')'

def Setting.isQuoted : Setting → Bool
  | .bare => false
  | .doubled => true
  | .braced => false
  | .arithmetic => true

/-- The name of a parameter: a name, a number of one digit, or a sign. -/
def parameterName (c : Cursor) : List Char :=
  match c.rest with
  | [] => []
  | d :: _ =>
    if isNameStart d then c.rest.takeWhile isNameChar
    else if d.isDigit ∨ d ∈ ['#', '*', '@', '?', '$', '!', '-'] then [d]
    else []

/-- The form that follows a parameter's name inside braces. -/
def parameterForm (c : Cursor) : Form × Cursor :=
  match c.rest with
  | ':' :: '-' :: _ => (.default true, c.skip 2)
  | ':' :: '=' :: _ => (.assign true, c.skip 2)
  | ':' :: '+' :: _ => (.alternative true, c.skip 2)
  | '-' :: _ => (.default false, c.skip 1)
  | '=' :: _ => (.assign false, c.skip 1)
  | '+' :: _ => (.alternative false, c.skip 1)
  | '#' :: '#' :: _ => (.removeStart true, c.skip 2)
  | '#' :: _ => (.removeStart false, c.skip 1)
  | '%' :: '%' :: _ => (.removeEnd true, c.skip 2)
  | '%' :: _ => (.removeEnd false, c.skip 1)
  | _ => (.plain, c)

/-- The text between backquotes, in which a backslash frees some characters. -/
def unquoteBackquoted : List Char → List Char
  | '\\' :: c :: rest =>
    if c = '\\' ∨ c = '$' ∨ c.toNat = 0x60 then c :: unquoteBackquoted rest
    else '\\' :: unquoteBackquoted (c :: rest)
  | c :: rest => c :: unquoteBackquoted rest
  | [] => []

/-- The characters before a closing backquote. -/
def backquoted : List Char → List Char
  | '\\' :: c :: rest => '\\' :: c :: backquoted rest
  | c :: rest => if c.toNat = 0x60 then [] else c :: backquoted rest
  | [] => []

/-- The redirection sign in front, and the stream it is for. -/
def redirectionSign? (c : Cursor) : Option (Nat × Direction × Cursor) :=
  let digits := c.rest.takeWhile Char.isDigit
  let after := c.skip digits.length
  let stream (n : Nat) : Nat :=
    match digits with
    | [d] => d.toNat - '0'.toNat
    | _ => n
  if 1 < digits.length then none
  else if after.startsWith ">>" then some (stream 1, .append, after.skip 2)
  else if after.startsWith ">&" then some (stream 1, .duplicate, after.skip 2)
  else if after.startsWith ">" then some (stream 1, .write, after.skip 1)
  else if after.startsWith "<<" ∨ after.startsWith "<&" then none
  else if after.startsWith "<" then some (stream 0, .read, after.skip 1)
  else none

/-- The name that an assignment begins with. -/
def assignedName? (c : Cursor) : Option (List Char) :=
  let name := c.rest.takeWhile isNameChar
  if (name.head?.map isNameStart).getD false && (c.skip name.length).startsWith "=" then some name
  else none

/-! ## Commands -/

/-- The part of a simple command that has been read. -/
structure Simple where
  line : Nat
  assignments : List (List Char × Word)
  words : List Word
  redirections : List Redirection

def Simple.isEmpty (s : Simple) : Bool :=
  s.assignments.isEmpty && s.words.isEmpty && s.redirections.isEmpty

def Simple.command (s : Simple) : Command :=
  .simple s.line s.assignments s.words s.redirections

mutual

/-- The parts of a word up to the end of its setting. -/
def parts : (fuel : Nat) → Setting → Cursor → Option (List Part × Cursor)
  | 0, _, _ => none
  | fuel + 1, s, c =>
    if s.ends c then some ([], c)
    else do
      let (first, c) ← part fuel s c
      let (more, c) ← parts fuel s c
      return (first ++ more, c)

def part : (fuel : Nat) → Setting → Cursor → Option (List Part × Cursor)
  | 0, _, _ => none
  | fuel + 1, s, c =>
    let quoted := s.isQuoted
    match c.rest with
    | [] => none
    | '\\' :: '\n' :: _ => some ([], c.skip 2)
    | '\\' :: d :: _ =>
      if quoted && !(d = '$' || d = '"' || d = '\\' || d.toNat = 0x60) then
        some ([.text true ['\\']], c.skip 1)
      else some ([.text true [d]], c.skip 2)
    | '$' :: '(' :: '(' :: _ => do
      let (inner, c) ← parts fuel .arithmetic (c.skip 3)
      return ([.arithmetic quoted inner], ← c.past? "))")
    | '$' :: '(' :: _ => do
      let (script, c) ← commands fuel (c.skip 2)
      return ([.output quoted script], ← (skipLines c).past? ")")
    | '$' :: '\x7b' :: '#' :: '\x7d' :: _ =>
      some ([.parameter quoted ['#'] .plain []], c.skip 4)
    | '$' :: '\x7b' :: '#' :: _ =>
      let c := c.skip 3
      let name := parameterName c
      ((c.skip name.length).past? "\x7d").map fun c => ([.parameter quoted name .length []], c)
    | '$' :: '\x7b' :: _ => do
      let c := c.skip 2
      let name := parameterName c
      let (form, c) := parameterForm (c.skip name.length)
      let (word, c) ← parts fuel .braced c
      if name.isEmpty then none
      return ([.parameter quoted name form word], ← c.past? "\x7d")
    | '$' :: _ =>
      let name := parameterName (c.skip 1)
      if name.isEmpty then some ([.text quoted ['$']], c.skip 1)
      else some ([.parameter quoted name .plain []], c.skip (1 + name.length))
    | d :: rest =>
      if d = '\'' && !quoted then
        let text := rest.takeWhile (· ≠ '\'')
        ((c.skip (1 + text.length)).past? "'").map fun c => ([.text true text], c)
      else if d = '"' && !quoted then do
        let (inner, c) ← parts fuel .doubled (c.skip 1)
        return (.text true [] :: inner, ← c.past? "\"")
      else if d.toNat = 0x60 then do
        let text := backquoted rest
        let (script, _) ← commands fuel ⟨unquoteBackquoted text, c.line⟩
        return ([.output quoted script], c.skip (text.length + 2))
      else some ([.text quoted [d]], c.skip 1)

/-- Commands one after another, up to something that is no command. -/
def commands : (fuel : Nat) → Cursor → Option (Command × Cursor)
  | 0, _ => none
  | fuel + 1, c => do
    let c := skipLines c
    if c.rest.isEmpty || c.startsWith ")" || c.startsWith ";;" ||
        keyword c ∈ ["then", "do", "done", "fi", "else", "elif", "esac", "\x7d"] then
      return (.nothing, c)
    let (first, c) ← logical fuel c
    let c := skipGaps c
    let c := if c.startsWith ";" && !c.startsWith ";;" then c.skip 1 else c
    let (more, c) ← commands fuel c
    match more with
    | .sequence list => return (.sequence (first :: list), c)
    | other => return (.sequence [first, other], c)

/-- Pipelines joined by signs for "and" and "or". -/
def logical : (fuel : Nat) → Cursor → Option (Command × Cursor)
  | 0, _ => none
  | fuel + 1, c => do
    let (first, c) ← pipeline fuel c
    joined fuel first c

def joined : (fuel : Nat) → Command → Cursor → Option (Command × Cursor)
  | 0, _, _ => none
  | fuel + 1, first, c => do
    let c := skipGaps c
    if c.startsWith "&&" then
      let (second, c) ← pipeline fuel (skipLines (c.skip 2))
      joined fuel (.both first second) c
    else if c.startsWith "||" then
      let (second, c) ← pipeline fuel (skipLines (c.skip 2))
      joined fuel (.either first second) c
    else return (first, c)

def pipeline : (fuel : Nat) → Cursor → Option (Command × Cursor)
  | 0, _ => none
  | fuel + 1, c => do
    let c := skipGaps c
    if keyword c = "!" then
      let (body, c) ← pipeline fuel (c.skip 1)
      return (.negated body, c)
    else
      let (first, c) ← command fuel c
      let c := skipGaps c
      if c.startsWith "|" && !c.startsWith "||" then
        let (second, c) ← pipeline fuel (skipLines (c.skip 1))
        return (.pipe first second, c)
      else return (first, c)

/-- One command, which may be made of others. -/
def command : (fuel : Nat) → Cursor → Option (Command × Cursor)
  | 0, _ => none
  | fuel + 1, c => do
    let c := skipGaps c
    if c.startsWith "(" then
      let (body, c) ← commands fuel (c.skip 1)
      redirections fuel (.subshell body) (← (skipLines c).past? ")")
    else if keyword c = "\x7b" then
      let (body, c) ← commands fuel (c.skip 1)
      redirections fuel body (← past? c "\x7d")
    else if keyword c = "if" then
      let (body, c) ← conditional fuel (c.skip 2)
      redirections fuel body c
    else if keyword c = "while" || keyword c = "until" then
      let wanted := keyword c = "while"
      let (condition, c) ← commands fuel (c.skip 5)
      let (body, c) ← commands fuel (← past? c "do")
      redirections fuel (.loop wanted condition body) (← past? c "done")
    else if keyword c = "for" then
      let c := skipGaps (c.skip 3)
      let name := c.rest.takeWhile isNameChar
      let c := skipLines (c.skip name.length)
      let (words, c) ←
        if keyword c = "in" then wordList fuel (c.skip 2)
        else some ([[.parameter true ['@'] .plain []]], c)
      let c := skipGaps c
      let c := if c.startsWith ";" then c.skip 1 else c
      let (body, c) ← commands fuel (← past? c "do")
      redirections fuel (.each name words body) (← past? c "done")
    else if keyword c = "case" then
      let (word, c) ← parts fuel .bare (skipGaps (c.skip 4))
      let (branches, c) ← caseBranches fuel (← past? c "in")
      redirections fuel (.choice word branches) (← past? c "esac")
    else simple fuel ⟨c.line, [], [], []⟩ c

/-- A conditional, from after its first keyword. -/
def conditional : (fuel : Nat) → Cursor → Option (Command × Cursor)
  | 0, _ => none
  | fuel + 1, c => do
    let (condition, c) ← commands fuel c
    let (body, c) ← commands fuel (← past? c "then")
    match keyword (skipLines c) with
    | "elif" =>
      let (otherwise, c) ← conditional fuel (← past? c "elif")
      return (.branch condition body otherwise, c)
    | "else" =>
      let (otherwise, c) ← commands fuel (← past? c "else")
      return (.branch condition body otherwise, ← past? c "fi")
    | _ => return (.branch condition body .nothing, ← past? c "fi")

def caseBranches : (fuel : Nat) → Cursor → Option (List (List Word × Command) × Cursor)
  | 0, _ => none
  | fuel + 1, c => do
    let c := skipLines c
    if keyword c = "esac" then return ([], c)
    let c := if c.startsWith "(" then c.skip 1 else c
    let (patterns, c) ← casePatterns fuel c
    let (body, c) ← commands fuel (← c.past? ")")
    let c := skipLines c
    let c := if c.startsWith ";;" then c.skip 2 else c
    let (more, c) ← caseBranches fuel c
    return ((patterns, body) :: more, c)

def casePatterns : (fuel : Nat) → Cursor → Option (List Word × Cursor)
  | 0, _ => none
  | fuel + 1, c => do
    let (pattern, c) ← parts fuel .bare (skipGaps c)
    let c := skipGaps c
    if c.startsWith "|" then
      let (more, c) ← casePatterns fuel (c.skip 1)
      return (pattern :: more, c)
    else return ([pattern], c)

/-- Words up to the end of a line. -/
def wordList : (fuel : Nat) → Cursor → Option (List Word × Cursor)
  | 0, _ => none
  | fuel + 1, c => do
    let c := skipGaps c
    if Setting.bare.ends c then return ([], c)
    let (word, c) ← parts fuel .bare c
    let (more, c) ← wordList fuel c
    return (word :: more, c)

/-- A redirection, if one is in front. -/
def redirection : (fuel : Nat) → Cursor → Option (Option Redirection × Cursor)
  | 0, _ => none
  | fuel + 1, c =>
    match redirectionSign? c with
    | none => some (none, c)
    | some (stream, direction, c) => do
      let (word, c) ← parts fuel .bare (skipGaps c)
      return (some (.to stream direction word), c)

/-- The redirections after a command made of others. -/
def redirections : (fuel : Nat) → Command → Cursor → Option (Command × Cursor)
  | 0, _, _ => none
  | fuel + 1, body, c => do
    match ← redirection fuel (skipGaps c) with
    | (none, _) => return (body, c)
    | (some r, c) => redirections fuel (.redirected body [r]) c

/-- A simple command: assignments, words and redirections, up to the end of its line. -/
def simple : (fuel : Nat) → Simple → Cursor → Option (Command × Cursor)
  | 0, _, _ => none
  | fuel + 1, so, c => do
    let c := skipGaps c
    match ← redirection fuel c with
    | (some r, c) => simple fuel { so with redirections := so.redirections ++ [r] } c
    | (none, c) =>
      if Setting.bare.ends c then
        if so.isEmpty then none else return (so.command, c)
      else
        let name? := if so.words.isEmpty then assignedName? c else none
        match name? with
        | some name =>
          let (word, c) ← parts fuel .bare (c.skip (name.length + 1))
          simple fuel { so with assignments := so.assignments ++ [(name, word)] } c
        | none =>
          let (word, c) ← parts fuel .bare c
          simple fuel { so with words := so.words ++ [word] } c

end

/-- A script; none if it cannot be read. -/
def parse? (text : List Char) : Option Command :=
  match commands (16 * text.length + 64) ⟨text, 1⟩ with
  | some (script, c) => if c.rest.isEmpty then some script else none
  | none => none

end CorpusAnnotator.Shell
