import CorpusAnnotator.Files.Glob
import CorpusAnnotator.Shell.Machine

/-! Running scripts: the expansion of words, and the execution of commands. -/
namespace CorpusAnnotator.Shell

/-! ## Words made of glyphs -/

/-- What words expand to, before they are cut into fields. A mark makes a field even if nothing is
in it; a break ends one. -/
inductive Glyph where
  | char (quoted : Bool) (c : Char)
  | mark
  | space
  | fieldBreak
  deriving Repr, DecidableEq

def quotedGlyphs (text : List Char) : List Glyph := .mark :: text.map (.char true)

/-- A value that is cut at blanks. -/
def splitGlyphs (text : List Char) : List Glyph :=
  text.map fun c => if c = ' ' ∨ c = '\t' ∨ c = '\n' then .space else .char false c

def valueGlyphs (quoted : Bool) (text : List Char) : List Glyph :=
  if quoted then quotedGlyphs text else splitGlyphs text

/-- Arguments as fields of their own. -/
def argumentGlyphs : List (List Char) → List Glyph
  | [] => []
  | [a] => quotedGlyphs a
  | a :: rest => quotedGlyphs a ++ .fieldBreak :: argumentGlyphs rest

/-- The characters of glyphs. -/
def glyphText (glyphs : List Glyph) : List Char :=
  glyphs.filterMap fun
    | .char _ c => some c
    | .space => some ' '
    | _ => none

/-- The fields that glyphs make; `current` is the one begun. -/
def fieldsFrom (current : Option (List Char)) : List Glyph → List (List Char)
  | [] => current.toList
  | .char _ c :: rest => fieldsFrom (some (current.getD [] ++ [c])) rest
  | .mark :: rest => fieldsFrom (some (current.getD [])) rest
  | .space :: rest => current.toList ++ fieldsFrom none rest
  | .fieldBreak :: rest => current.toList ++ fieldsFrom none rest

/-! ## Patterns -/

/-- The tokens of a pattern. What is quoted stands for itself. -/
def patternTokens : (fuel : Nat) → List Glyph → List Files.Glob.Token
  | 0, _ => []
  | _ + 1, [] => []
  | fuel + 1, .char false '*' :: rest => .star :: patternTokens fuel rest
  | fuel + 1, .char false '?' :: rest => .any :: patternTokens fuel rest
  | fuel + 1, .char false '[' :: rest =>
    match Files.Glob.charClass? (glyphText rest) with
    | some (token, after) =>
      token :: patternTokens fuel (rest.drop ((glyphText rest).length - after.length))
    | none => .char '[' :: patternTokens fuel rest
  | fuel + 1, .char _ c :: rest => .char c :: patternTokens fuel rest
  | fuel + 1, _ :: rest => patternTokens fuel rest

def tokensOf (glyphs : List Glyph) : List Files.Glob.Token :=
  patternTokens (glyphs.length + 1) (glyphs.filter (· ≠ .mark))

/-- The value without the shortest, or longest, front that matches. -/
def withoutStart (longest : Bool) (pattern : List Files.Glob.Token) (value : List Char) :
    List Char :=
  let lengths := List.range (value.length + 1)
  let lengths := if longest then lengths.reverse else lengths
  match lengths.find? fun n => Files.Glob.matchTokens pattern (value.take n) with
  | some n => value.drop n
  | none => value

/-- The value without the shortest, or longest, end that matches. -/
def withoutEnd (longest : Bool) (pattern : List Files.Glob.Token) (value : List Char) : List Char :=
  let lengths := List.range (value.length + 1)
  let lengths := if longest then lengths else lengths.reverse
  match lengths.find? fun n => Files.Glob.matchTokens pattern (value.drop n) with
  | some n => value.take n
  | none => value

/-- A text without the ends of lines at its end. -/
def withoutNewlines (text : List Char) : List Char :=
  (text.reverse.dropWhile (· = '\n')).reverse

/-! ## Execution -/

/-- Run with other streams, and put the old ones back. -/
def Machine.restoring (m : Machine) (result : Machine × Flow) : Machine × Flow :=
  ({ result.1 with output := m.output, errors := m.errors, input := m.input }, result.2)

/-- What is left after a part of the script that could not change the rest: the files, the buffers,
and the status. -/
def Machine.afterSubshell (m : Machine) (result : Machine × Flow) : Machine × Flow :=
  let flow : Flow := if result.2 = .killed then .killed else .onward
  ({ m with tree := result.1.tree, buffers := result.1.buffers, status := result.1.status }, flow)

mutual

def expandParts : (fuel : Nat) → Machine → Word → List Glyph × Machine
  | 0, m, _ => ([], m)
  | _ + 1, m, [] => ([], m)
  | fuel + 1, m, part :: rest =>
    let (front, m) := expandPart fuel m part
    let (back, m) := expandParts fuel m rest
    (front ++ back, m)

def expandPart : (fuel : Nat) → Machine → Part → List Glyph × Machine
  | 0, m, _ => ([], m)
  | fuel + 1, m, part =>
    match part with
    | .text true chars => (quotedGlyphs chars, m)
    | .text false chars => (chars.map (.char false), m)
    | .arithmetic quoted expression =>
      let (glyphs, m) := expandParts fuel m expression
      match Arithmetic.evaluate? (fun name => (m.parameter? name).getD []) (glyphText glyphs) with
      | some n => (valueGlyphs quoted (toString n).toList, m)
      | none => ([], { m with stuck := true })
    | .output quoted script =>
      let index := m.buffers.length
      let inner := { m with buffers := m.buffers ++ [[]], output := .buffer index }
      let (inner, _) := run fuel inner script
      let text := withoutNewlines (inner.buffers[index]?.getD [])
      let m := { m with
        tree := inner.tree, buffers := inner.buffers.take index, taken := some inner.status }
      (valueGlyphs quoted text, m)
    | .parameter quoted name form word =>
      let value? := m.parameter? name
      let lacks (colon : Bool) : Bool :=
        match value? with
        | none => true
        | some value => colon && value.isEmpty
      match form with
      | .plain =>
        if name = ['@'] ∧ quoted then (argumentGlyphs m.arguments, m)
        else (valueGlyphs quoted (value?.getD []), m)
      | .length => (valueGlyphs quoted (toString (value?.getD []).length).toList, m)
      | .default colon =>
        if lacks colon then expandParts fuel m word else (valueGlyphs quoted (value?.getD []), m)
      | .assign colon =>
        if lacks colon then
          let (glyphs, m) := expandParts fuel m word
          (glyphs, m.assign name (glyphText glyphs))
        else (valueGlyphs quoted (value?.getD []), m)
      | .alternative colon => if lacks colon then ([], m) else expandParts fuel m word
      | .removeStart longest =>
        let (glyphs, m) := expandParts fuel m word
        (valueGlyphs quoted (withoutStart longest (tokensOf glyphs) (value?.getD [])), m)
      | .removeEnd longest =>
        let (glyphs, m) := expandParts fuel m word
        (valueGlyphs quoted (withoutEnd longest (tokensOf glyphs) (value?.getD [])), m)

def expandWords : (fuel : Nat) → Machine → List Word → List (List Char) × Machine
  | 0, m, _ => ([], m)
  | _ + 1, m, [] => ([], m)
  | fuel + 1, m, word :: rest =>
    let (glyphs, m) := expandParts fuel m word
    let (fields, m) := expandWords fuel m rest
    (fieldsFrom none glyphs ++ fields, m)

def assignAll : (fuel : Nat) → Machine → List (List Char × Word) → Machine
  | 0, m, _ => m
  | _ + 1, m, [] => m
  | fuel + 1, m, (name, word) :: rest =>
    let (glyphs, m) := expandParts fuel m word
    assignAll fuel (m.assign name (glyphText glyphs)) rest

/-- Send streams elsewhere one after another; none if one cannot be. -/
def redirectAll : (fuel : Nat) → Machine → List Redirection → Except Machine Machine
  | 0, m, _ => .error m
  | _ + 1, m, [] => .ok m
  | fuel + 1, m, .to stream direction word :: rest =>
    let (glyphs, m) := expandParts fuel m word
    match m.redirect? stream direction (glyphText glyphs) with
    | some m => redirectAll fuel m rest
    | none => .error m

/-- Run a command. A script that runs out of fuel is ended. -/
def run : (fuel : Nat) → Machine → Command → Machine × Flow
  | 0, m, _ => (m, .killed)
  | fuel + 1, m, command =>
    match command with
    | .simple line assignments words redirections =>
      let (fields, m) := expandWords fuel { m with taken := none } words
      match fields with
      | [] =>
        let m := assignAll fuel m assignments
        if m.stuck then (m.withStatus 2, .finish)
        else (m.withStatus (m.taken.getD 0), .onward)
      | name :: arguments =>
        if m.stuck then (m.withStatus 2, .finish)
        else
          match redirectAll fuel m redirections with
          | .error _ => (m.withStatus 2, .onward)
          | .ok inner =>
            let after := inner.call line name arguments
            ({ after.1 with
                output := m.output
                errors := m.errors
                input := if inner.input = m.input then after.1.input else m.input }, after.2)
    | .sequence commands => runAll fuel m commands
    | .both first second =>
      match run fuel m first with
      | (m, .onward) => if m.status = 0 then run fuel m second else (m, .onward)
      | stopped => stopped
    | .either first second =>
      match run fuel m first with
      | (m, .onward) => if m.status = 0 then (m, .onward) else run fuel m second
      | stopped => stopped
    | .negated body =>
      match run fuel m body with
      | (m, .onward) => (m.withStatus (if m.status = 0 then 1 else 0), .onward)
      | stopped => stopped
    | .pipe source target =>
      let index := m.buffers.length
      let inner := { m with buffers := m.buffers ++ [[]], output := .buffer index }
      let (inner, _) := run fuel inner source
      let text := inner.buffers[index]?.getD []
      let outer := { m with tree := inner.tree, buffers := inner.buffers.take index, input := text }
      m.afterSubshell (run fuel outer target)
    | .subshell body => m.afterSubshell (run fuel m body)
    | .redirected body redirections =>
      match redirectAll fuel m redirections with
      | .error m => (m.withStatus 2, .onward)
      | .ok inner => m.restoring (run fuel inner body)
    | .branch condition body otherwise =>
      match run fuel m condition with
      | (m, .onward) => run fuel m (if m.status = 0 then body else otherwise)
      | stopped => stopped
    | .loop wanted condition body => runLoop fuel m 0 wanted condition body
    | .each name words body =>
      let (fields, m) := expandWords fuel m words
      runEach fuel (m.withStatus 0) name fields body
    | .choice word branches =>
      let (glyphs, m) := expandParts fuel m word
      runChoice fuel (m.withStatus 0) (glyphText glyphs) branches

def runAll : (fuel : Nat) → Machine → List Command → Machine × Flow
  | 0, m, _ => (m, .killed)
  | _ + 1, m, [] => (m, .onward)
  | fuel + 1, m, command :: rest =>
    match run fuel m command with
    | (m, .onward) => runAll fuel m rest
    | stopped => stopped

/-- Run a loop as long as its condition holds or, if so wanted, does not. The status is that of the
last round. -/
def runLoop : (fuel : Nat) → Machine → (status : Nat) → Bool → Command → Command → Machine × Flow
  | 0, m, _, _, _, _ => (m, .killed)
  | fuel + 1, m, status, wanted, condition, body =>
    match run fuel m condition with
    | (m, .onward) =>
      if (m.status = 0) = wanted then
        match run fuel m body with
        | (m, .onward) => runLoop fuel m m.status wanted condition body
        | (m, .leave (loops + 2)) => (m, .leave (loops + 1))
        | (m, .leave _) => (m, .onward)
        | (m, .again (loops + 2)) => (m, .again (loops + 1))
        | (m, .again _) => runLoop fuel m m.status wanted condition body
        | stopped => stopped
      else (m.withStatus status, .onward)
    | stopped => stopped

def runEach : (fuel : Nat) → Machine → List Char → List (List Char) → Command → Machine × Flow
  | 0, m, _, _, _ => (m, .killed)
  | _ + 1, m, _, [], _ => (m, .onward)
  | fuel + 1, m, name, value :: rest, body =>
    match run fuel (m.assign name value) body with
    | (m, .onward) => runEach fuel m name rest body
    | (m, .leave (loops + 2)) => (m, .leave (loops + 1))
    | (m, .leave _) => (m, .onward)
    | (m, .again (loops + 2)) => (m, .again (loops + 1))
    | (m, .again _) => runEach fuel m name rest body
    | stopped => stopped

/-- Run the first branch that has a pattern which matches. -/
def runChoice : (fuel : Nat) → Machine → List Char → List (List Word × Command) → Machine × Flow
  | 0, m, _, _ => (m, .killed)
  | _ + 1, m, _, [] => (m, .onward)
  | fuel + 1, m, value, (patterns, body) :: rest =>
    let (fits, m) := matchAny fuel m value patterns
    if fits then run fuel m body else runChoice fuel m value rest

def matchAny : (fuel : Nat) → Machine → List Char → List Word → Bool × Machine
  | 0, m, _, _ => (false, m)
  | _ + 1, m, _, [] => (false, m)
  | fuel + 1, m, value, pattern :: rest =>
    let (glyphs, m) := expandParts fuel m pattern
    if Files.Glob.matchTokens (tokensOf glyphs) value then (true, m)
    else matchAny fuel m value rest

end

/-- Enough for any script that ends in a reasonable time. -/
def ample : Nat := 100000

end CorpusAnnotator.Shell
