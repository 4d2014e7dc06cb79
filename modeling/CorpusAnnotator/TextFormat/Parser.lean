import CorpusAnnotator.TextFormat.Lexer
import CorpusAnnotator.TextFormat.Message

/-! Reading a message from tokens. A field is a name followed by a message, by a list, or by a colon
and a scalar; the colon may also stand before a message or a list. A list gives one field for each
of its values. After a field one comma or one semicolon may stand. -/
namespace CorpusAnnotator.TextFormat

open Text (Taken Left)

/-- The line to name in an error: that of the next token, or at the end `last`. -/
def lineOf (last : Nat) : List Located → Nat
  | [] => last
  | t :: _ => t.line

/-- The line of the last token, and the first line where there is none. -/
def lastLine (ts : List Located) : Nat :=
  (ts.getLast?.map Located.line).getD 1

/-- Skip a mark if it comes next. -/
def skip (m : Mark) (ts : List Located) : Left Bool ts :=
  match ts with
  | [] => .unread false
  | t :: _ =>
    if t.token = .mark m then (Taken.one true).toLeft else .unread false

/-- Skip the separator after a field. -/
def skipSeparator (ts : List Located) : Left Unit ts :=
  let ⟨comma, rest, h⟩ := skip .comma ts
  if comma then ⟨(), rest, h⟩ else (skip .semicolon rest).map (fun _ => ()) |>.widen h

/-- A field's name: a word, or a word in brackets, which keeps them. -/
def fieldName (last : Nat) (ts : List Located) : Except Error (Taken String ts) :=
  let line := lineOf last ts
  match ts with
  | [] => .error ⟨line, .noFieldName none⟩
  | t :: rest =>
    match t.token with
    | .word name => .ok (.one name)
    | .mark .openBracket =>
      match rest with
      | u :: v :: _ =>
        match u.token, v.token with
        | .word name, .mark .closeBracket => .ok (Taken.one ("[" ++ name ++ "]")).behind.behind
        | _, _ => .error ⟨line, .malformedExtension⟩
      | _ => .error ⟨line, .malformedExtension⟩
    | token => .error ⟨line, .noFieldName (some token)⟩

/-- The literals that follow one another, put together. -/
def literals (ts : List Located) : Left String ts :=
  match ts with
  | [] => .unread ""
  | t :: rest =>
    match t.token with
    | .literal text =>
      let more := literals rest
      ⟨text ++ more.value, more.rest, Nat.le_succ_of_le more.notLonger⟩
    | _ => .unread ""

/-- A word, or one or more literals. -/
def scalar (last : Nat) (ts : List Located) : Except Error (Taken String ts) :=
  let line := lineOf last ts
  match ts with
  | [] => .error ⟨line, .noValue none⟩
  | t :: rest =>
    match t.token with
    | .word text => .ok (.one text)
    | .literal text =>
      let more := literals rest
      .ok ⟨text ++ more.value, more.rest, Nat.lt_succ_of_le more.notLonger⟩
    | token => .error ⟨line, .noValue (some token)⟩

/-- The mark that closes a message which `m` opens. -/
def Mark.closing? : Mark → Option Mark
  | .openBrace => some .closeBrace
  | .openAngle => some .closeAngle
  | _ => none

/-- The closing mark to look for after a token that opens a message. -/
def opens? (t : Located) : Option Mark :=
  match t.token with
  | .mark m => m.closing?
  | _ => none

mutual

/-- Fields up to the mark `close`, or to the end where there is none to look for. -/
def fields (last : Nat) (close : Option Mark) (ts : List Located) :
    Except Error (Left Message ts) :=
  match ts with
  | [] =>
    match close with
    | none => .ok (.unread [])
    | some m => .error ⟨last, .missing m⟩
  | t :: rest =>
    if close.map Token.mark = some t.token then .ok (Taken.one []).toLeft
    else do
      let ⟨name, rest, h⟩ ← fieldName last (t :: rest)
      let ⟨values, rest, h'⟩ ← fieldValues last name rest
      let ⟨_, rest, h''⟩ := skipSeparator rest
      let ⟨more, rest, h'''⟩ ← fields last close rest
      return ⟨values.map (name, ·) ++ more, rest, by omega⟩
termination_by 2 * ts.length
decreasing_by all_goals simp only [List.length_cons] at *; omega

/-- The values of a field whose name has been read. -/
def fieldValues (last : Nat) (name : String) (ts : List Located) :
    Except Error (Taken (List Value) ts) :=
  let ⟨colon, rest, h⟩ := skip .colon ts
  match rest with
  | [] =>
    if colon then .error ⟨last, .noValue none⟩ else .error ⟨last, .bareField name⟩
  | t :: after =>
    match opens? t with
    | some close => do
      let message ← fields last (some close) after
      return (message.behind.map fun m => [.message m]).widen h
    | none =>
      if t.token = .mark .openBracket then
        let closed := skip .closeBracket after
        if closed.value then .ok ((closed.behind.map fun _ => []).widen h)
        else do
          let values ← items last name closed.rest
          return (closed.andThen values).behind.widen h
      else if colon then do
        let text ← scalar last (t :: after)
        return (text.map fun s => [.scalar s]).widen h
      else .error ⟨t.line, .bareField name⟩
termination_by 2 * ts.length + 1
decreasing_by
  · have hlt : after.length < ts.length := h
    omega
  · have hlt := Nat.lt_of_le_of_lt closed.notLonger h
    simp only [closed] at hlt
    omega

/-- The values of a list, read from after its opening bracket to after its closing one. -/
def items (last : Nat) (name : String) (ts : List Located) :
    Except Error (Taken (List Value) ts) := do
  let ⟨value, rest, h⟩ ← value last ts
  let ⟨comma, rest, h'⟩ := skip .comma rest
  if comma then
    let ⟨more, rest, h''⟩ ← items last name rest
    return ⟨value :: more, rest, by omega⟩
  else
    let ⟨closed, rest', h''⟩ := skip .closeBracket rest
    if closed then return ⟨[value], rest', by omega⟩
    else throw ⟨lineOf last rest, .openList name⟩
termination_by 2 * ts.length + 1
decreasing_by all_goals omega

/-- A message or a scalar. -/
def value (last : Nat) (ts : List Located) : Except Error (Taken Value ts) :=
  match ts with
  | [] => (scalar last []).map fun t => t.map .scalar
  | t :: rest =>
    match opens? t with
    | some close => do
      let message ← fields last (some close) rest
      return message.behind.map .message
    | none => (scalar last (t :: rest)).map fun s => s.map .scalar
termination_by 2 * ts.length
decreasing_by simp only [List.length_cons]; omega

end

/-- The message that a list of tokens spells. -/
def Message.ofTokens (ts : List Located) : Except Error Message :=
  (fields (lastLine ts) none ts).map Left.value

/-- The message that a text spells. -/
def Message.read (text : String) : Except Error Message := do
  Message.ofTokens (← tokens text.toList)

end CorpusAnnotator.TextFormat
