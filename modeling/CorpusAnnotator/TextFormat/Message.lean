/-! Messages: ordered lists of named fields, names occurring as often as they like. -/
namespace CorpusAnnotator.TextFormat

/-- The value of a field: a text, or a message with fields of its own. -/
inductive Value where
  | scalar (text : String)
  | message (fields : List (String × Value))
  deriving Repr

/-- A message is its fields in the order in which they were written. -/
abbrev Message := List (String × Value)

mutual

def Value.decEq : (v w : Value) → Decidable (v = w)
  | .scalar s, .scalar t => decidable_of_iff (s = t) (by simp)
  | .message m, .message n =>
    have := fieldsDecEq m n
    decidable_of_iff (m = n) (by simp)
  | .scalar _, .message _ => isFalse nofun
  | .message _, .scalar _ => isFalse nofun

def fieldsDecEq : (m n : List (String × Value)) → Decidable (m = n)
  | [], [] => isTrue rfl
  | [], _ :: _ => isFalse nofun
  | _ :: _, [] => isFalse nofun
  | (s, v) :: m, (t, w) :: n =>
    have := v.decEq w
    have := fieldsDecEq m n
    decidable_of_iff (s = t ∧ v = w ∧ m = n) (by simp [and_assoc])

end

instance : DecidableEq Value := Value.decEq

def Value.scalar? : Value → Option String
  | .scalar text => some text
  | .message _ => none

def Value.message? : Value → Option Message
  | .scalar _ => none
  | .message fields => some fields

namespace Message

/-- The values of all fields of one name. -/
def all (m : Message) (name : String) : List Value :=
  m.filterMap fun (field, value) => if field = name then some value else none

/-- The message values of all fields of one name. -/
def messages (m : Message) (name : String) : List Message :=
  (m.all name).filterMap Value.message?

/-- The first text of a field. -/
def scalar? (m : Message) (name : String) : Option String :=
  ((m.all name).filterMap Value.scalar?).head?

/-- The first message of a field. -/
def message? (m : Message) (name : String) : Option Message :=
  (m.messages name).head?

theorem all_append (m n : Message) (name : String) :
    all (m ++ n) name = m.all name ++ n.all name :=
  List.filterMap_append

end Message

end CorpusAnnotator.TextFormat
