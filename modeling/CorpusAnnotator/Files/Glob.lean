import CorpusAnnotator.Files.Tree

/-! File patterns. In a component of a pattern a question mark stands for one character, a star for
any number of them, and brackets for one character of a class; two stars, which are a component of
their own, stand for any number of directories. Names are tried in increasing order, and a name that
begins with a point is like any other. -/
namespace CorpusAnnotator.Files.Glob

/-! ## Components -/

/-- One character or a range of them. -/
structure Range where
  low : Char
  high : Char
  deriving Repr, DecidableEq

inductive Token where
  | char (c : Char)
  | any
  | star
  | within (ranges : List Range)
  | except (ranges : List Range)
  deriving Repr, DecidableEq

inductive Component where
  | name (tokens : List Token)
  | recursive
  deriving Repr, DecidableEq

/-- Why a pattern is malformed. -/
inductive Error where
  | wildcards
  | recursiveWildcards
  | unclosedClass
  deriving Repr, DecidableEq

def Error.message : Error → String
  | .wildcards => "wildcards are either regular `*` or recursive `**`"
  | .recursiveWildcards => "recursive wildcards must form a single path component"
  | .unclosedClass => "invalid range pattern"

/-- The characters of a class: a hyphen between two characters makes a range. -/
def ranges : List Char → List Range
  | a :: '-' :: b :: rest => ⟨a, b⟩ :: ranges rest
  | a :: rest => ⟨a, a⟩ :: ranges rest
  | [] => []

def inRanges (rs : List Range) (c : Char) : Bool :=
  rs.any fun r => r.low ≤ c && c ≤ r.high

/-- Read a class from after its opening bracket. It has at least one character, which may be the
closing bracket; an exclamation mark before it turns the class around. -/
def charClass? (text : List Char) : Option (Token × List Char) :=
  let close (first : Char) (rest : List Char) (make : List Range → Token) :
      Option (Token × List Char) :=
    match rest.dropWhile (· ≠ ']') with
    | [] => none
    | _ :: after => some (make (ranges (first :: rest.takeWhile (· ≠ ']'))), after)
  match text with
  | '!' :: c :: rest => close c rest .except
  | ['!'] => none
  | c :: rest => close c rest .within
  | [] => none

/-- Tokens of a text in which two stars may not stand together. -/
def tokens : (fuel : Nat) → List Char → Except Error (List Token)
  | 0, _ => .ok []
  | _ + 1, [] => .ok []
  | fuel + 1, c :: rest =>
    if c = '?' then (tokens fuel rest).map (.any :: ·)
    else if c = '*' then
      if rest.head? = some '*' then
        .error (if (rest.drop 1).head? = some '*' then .wildcards else .recursiveWildcards)
      else (tokens fuel rest).map (.star :: ·)
    else if c = '[' then
      match charClass? rest with
      | none => .error .unclosedClass
      | some (token, after) => (tokens fuel after).map (token :: ·)
    else (tokens fuel rest).map (.char c :: ·)

def component (text : List Char) : Except Error Component :=
  if text = ['*', '*'] then .ok .recursive else (tokens text.length text).map .name

/-- Whether a name has an end of which something holds. -/
def anyEnd (holds : List Char → Bool) : List Char → Bool
  | [] => holds []
  | c :: rest => holds (c :: rest) || anyEnd holds rest

/-- Whether tokens match a whole name. -/
def matchTokens : List Token → List Char → Bool
  | [], name => name.isEmpty
  | .star :: ts, name => anyEnd (matchTokens ts) name
  | .char c :: ts, d :: name => c = d && matchTokens ts name
  | .any :: ts, _ :: name => matchTokens ts name
  | .within rs :: ts, d :: name => inRanges rs d && matchTokens ts name
  | .except rs :: ts, d :: name => !inRanges rs d && matchTokens ts name
  | _ :: _, [] => false

/-- The text of tokens that all stand for themselves. -/
def literal? (ts : List Token) : Option String :=
  (ts.mapM char?).map String.ofList
where
  char? : Token → Option Char
    | .char c => some c
    | _ => none

/-! ## Patterns -/

/-- A step into the tree: to an entry of a directory, or to one of any depth below it. -/
inductive Stride where
  | entry (tokens : List Token)
  | anywhere (tokens : List Token)
  | directories
  deriving Repr, DecidableEq

/-- A pattern: where it starts, its strides, and whether it wants directories. -/
structure Pattern where
  start : Place
  strides : List Stride
  onlyDirectories : Bool
  deriving Repr, DecidableEq

/-- The strides of components. Several recursive ones together are like one. -/
def strides : List Component → List Stride
  | [] => []
  | .name ts :: rest => .entry ts :: strides rest
  | .recursive :: .name ts :: rest => .anywhere ts :: strides rest
  | .recursive :: rest =>
    match strides rest with
    | [] => [.directories]
    | more => more

/-- The components between slashes; a slash at the end closes the last. -/
def componentTexts (text : List Char) : List (List Char) :=
  let parts := Text.split '/' text
  if parts.getLast? = some [] ∧ 1 < parts.length then parts.dropLast else parts

/-- The pattern that a text spells. -/
def Pattern.read (text : String) : Except Error Pattern := do
  let cs := text.toList
  let relative := cs.dropWhile (· = '/')
  let components ← (componentTexts relative).mapM component
  return {
    start := if cs.head? = some '/' then ⟨.root, []⟩ else .here
    strides := Glob.strides components
    onlyDirectories := cs.getLast? = some '/' }

/-! ## Expansion -/

/-- A place that strides have led to. `untouched` holds at the start of a relative pattern, where an
empty component leads nowhere. -/
structure Spot where
  place : Place
  untouched : Bool
  deriving Repr, DecidableEq

def isDirectoryAt (t : Tree) (p : Place) : Bool := t.node? p = some .directory

/-- What lies below a place, each directory before its content; `depth` bounds how far down. -/
def below (t : Tree) : (depth : Nat) → Place → List Place
  | 0, _ => []
  | depth + 1, p =>
    if isDirectoryAt t p then
      (t.names p).flatMap fun name => p.child name :: below t depth (p.child name)
    else []

/-- The entry of a directory that a plain name leads to. -/
def follow (t : Tree) (s : Spot) (name : String) : List Spot :=
  if name = "" ∧ s.untouched then []
  else
    match t.enter s.place name with
    | .ok p => [⟨p, s.untouched && name = "."⟩]
    | .error _ => []

/-- The entries of a directory whose names match. The directory itself and the one above count as
entries if the pattern begins with a point. -/
def search (t : Tree) (s : Spot) (ts : List Token) : List Spot :=
  if isDirectoryAt t s.place then
    let special :=
      if ts.head? = some (.char '.') then
        [("..", s.place.parent), (".", s.place)].filterMap fun (name, p) =>
          if matchTokens ts name.toList then some (⟨p, false⟩ : Spot) else none
      else []
    let children := (t.names s.place).filter fun name => matchTokens ts name.toList
    special ++ children.map fun name => ⟨s.place.child name, false⟩
  else []

def Stride.apply (t : Tree) (s : Spot) : Stride → List Spot
  | .entry ts =>
    match literal? ts with
    | some name => follow t s name
    | none => search t s ts
  | .anywhere ts =>
    (below t (t.nodes.length + 1) s.place).filterMap fun p =>
      if matchTokens ts ((p.names.head?.getD "").toList) then some ⟨p, false⟩ else none
  | .directories =>
    (below t (t.nodes.length + 1) s.place).filterMap fun p =>
      if isDirectoryAt t p then some ⟨p, false⟩ else none

/-- The places that match a pattern. -/
def Pattern.expand (t : Tree) (p : Pattern) : List Place :=
  let spots := p.strides.foldl (fun spots stride => spots.flatMap fun s => stride.apply t s)
    [⟨p.start, p.start = .here⟩]
  (spots.map Spot.place).filter fun place => !p.onlyDirectories || isDirectoryAt t place

end CorpusAnnotator.Files.Glob
