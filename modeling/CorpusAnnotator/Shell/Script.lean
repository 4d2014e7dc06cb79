/-! Shell scripts. The bytes of a script are taken for characters one by one, and given back so. -/
namespace CorpusAnnotator.Shell

/-- A way of changing the value of a parameter where it is used. `colon` says that an empty value
counts as none. -/
inductive Form where
  | plain
  | length
  | default (colon : Bool)
  | assign (colon : Bool)
  | alternative (colon : Bool)
  | removeStart (longest : Bool)
  | removeEnd (longest : Bool)
  deriving Repr, DecidableEq

inductive Direction where
  | read
  | write
  | append
  | duplicate
  deriving Repr, DecidableEq

mutual

/-- A part of a word. What is quoted is neither split nor taken for a pattern. -/
inductive Part where
  | text (quoted : Bool) (chars : List Char)
  | parameter (quoted : Bool) (name : List Char) (form : Form) (word : List Part)
  | arithmetic (quoted : Bool) (expression : List Part)
  | output (quoted : Bool) (script : Command)

inductive Redirection where
  | to (stream : Nat) (direction : Direction) (word : List Part)

inductive Command where
  | simple (line : Nat) (assignments : List (List Char × List Part)) (words : List (List Part))
      (redirections : List Redirection)
  | sequence (commands : List Command)
  | both (first second : Command)
  | either (first second : Command)
  | negated (command : Command)
  | pipe (source target : Command)
  | subshell (body : Command)
  | redirected (body : Command) (redirections : List Redirection)
  | branch (condition body otherwise : Command)
  | loop (wanted : Bool) (condition body : Command)
  | each (name : List Char) (words : List (List Part)) (body : Command)
  | choice (word : List Part) (branches : List (List (List Part) × Command))

end

abbrev Word := List Part

def Command.nothing : Command := .sequence []

end CorpusAnnotator.Shell
