import CorpusAnnotator.Proofs.TextFormat.Grammar

/-! Looking fields up. Names may repeat, with texts and messages side by side: a look-up takes the
first value of the kind that it wants, and the messages of a name are those that are written under
it, by themselves or in lists. -/
namespace CorpusAnnotator.TextFormat

variable {α : Type} {m : Message} {name : String}

/-! ## The first value of a kind -/

/-- A field has a value of a kind, and no field of that name in front of it has one. -/
def Message.First (m : Message) (kind : α → Value) (name : String) (a : α) : Prop :=
  ∃ before after, m = before ++ (name, kind a) :: after ∧ ∀ b, (name, kind b) ∉ before

/-- The value of a field, if the field has the name and the value is of the kind. -/
def valueOf? (kind? : Value → Option α) (name : String) (field : String × Value) : Option α :=
  if field.1 = name then kind? field.2 else none

theorem filterMap_all (kind? : Value → Option α) (m : Message) (name : String) :
    (m.all name).filterMap kind? = m.filterMap (valueOf? kind? name) := by
  rw [Message.all, List.filterMap_filterMap]
  congr 1
  funext field
  simp only [valueOf?]
  split <;> rfl

variable {kind : α → Value} {kind? : Value → Option α}

theorem valueOf?_eq_some_iff (hkind : ∀ v a, kind? v = some a ↔ v = kind a)
    {field : String × Value} {a : α} :
    valueOf? kind? name field = some a ↔ field = (name, kind a) := by
  obtain ⟨fieldName, v⟩ := field
  simp only [valueOf?, Prod.mk.injEq]
  split
  · next hname => simp [hname, hkind]
  · next hname => simp [hname]

theorem head?_filterMap_all_eq_some_iff (hkind : ∀ v a, kind? v = some a ↔ v = kind a) {a : α} :
    ((m.all name).filterMap kind?).head? = some a ↔ m.First kind name a := by
  rw [filterMap_all, List.head?_filterMap, List.findSome?_eq_some_iff]
  constructor
  · rintro ⟨before, field, after, rfl, hfield, hbefore⟩
    obtain rfl := (valueOf?_eq_some_iff hkind).mp hfield
    refine ⟨before, after, rfl, fun b hb => ?_⟩
    have hsome := (valueOf?_eq_some_iff hkind).mpr (rfl : (name, kind b) = (name, kind b))
    rw [hbefore _ hb] at hsome
    cases hsome
  · rintro ⟨before, after, rfl, hbefore⟩
    refine ⟨before, _, after, rfl, (valueOf?_eq_some_iff hkind).mpr rfl, fun field hfield => ?_⟩
    cases hvalue : valueOf? kind? name field with
    | none => rfl
    | some b =>
      obtain rfl := (valueOf?_eq_some_iff hkind).mp hvalue
      exact absurd hfield (hbefore b)

theorem head?_filterMap_all_eq_none_iff (hkind : ∀ v a, kind? v = some a ↔ v = kind a) :
    ((m.all name).filterMap kind?).head? = none ↔ ∀ a, (name, kind a) ∉ m := by
  rw [filterMap_all, List.head?_filterMap, List.findSome?_eq_none_iff]
  constructor
  · intro h a ha
    have hsome := (valueOf?_eq_some_iff hkind).mpr (rfl : (name, kind a) = (name, kind a))
    rw [h _ ha] at hsome
    cases hsome
  · intro h field hfield
    cases hvalue : valueOf? kind? name field with
    | none => rfl
    | some a =>
      obtain rfl := (valueOf?_eq_some_iff hkind).mp hvalue
      exact absurd hfield (h a)

theorem Value.scalar?_eq_some_iff (v : Value) (text : String) :
    v.scalar? = some text ↔ v = .scalar text := by
  cases v <;> simp [Value.scalar?]

theorem Value.message?_eq_some_iff (v : Value) (fields : Message) :
    v.message? = some fields ↔ v = .message fields := by
  cases v <;> simp [Value.message?]

theorem Message.scalar?_eq_some_iff {text : String} :
    m.scalar? name = some text ↔ m.First .scalar name text :=
  head?_filterMap_all_eq_some_iff Value.scalar?_eq_some_iff

theorem Message.scalar?_eq_none_iff : m.scalar? name = none ↔ ∀ text, (name, .scalar text) ∉ m :=
  head?_filterMap_all_eq_none_iff Value.scalar?_eq_some_iff

theorem Message.message?_eq_some_iff {fields : Message} :
    m.message? name = some fields ↔ m.First .message name fields :=
  head?_filterMap_all_eq_some_iff Value.message?_eq_some_iff

/-! ## The messages of a name -/

theorem Message.messages_append (m n : Message) (name : String) :
    messages (m ++ n) name = m.messages name ++ n.messages name := by
  rw [messages, all_append, List.filterMap_append]
  rfl

/-- The message that an item is, if it is one. -/
def ItemPhrase.nested? : ItemPhrase → Option MessagePhrase
  | .nested _ fields => some fields
  | .scalar _ => none

def ItemsPhrase.nested : ItemsPhrase → List MessagePhrase
  | .last item => item.nested?.toList
  | .more item rest => item.nested?.toList ++ rest.nested

/-- The messages that stand behind a field's name, one by itself or any number in a list. -/
def BodyPhrase.nestedMessages : BodyPhrase → List MessagePhrase
  | .nested _ _ fields => [fields]
  | .emptyList _ => []
  | .list _ items => items.nested
  | .scalar _ => []

/-- The messages that a message has under a name, as they are written. -/
def MessagePhrase.blocks (name : String) : MessagePhrase → List MessagePhrase
  | .empty => []
  | .field n body _ rest =>
    (if n.name = name then body.nestedMessages else []) ++ rest.blocks name

theorem ItemPhrase.message?_value (i : ItemPhrase) :
    i.value.message? = i.nested?.map MessagePhrase.message := by
  cases i <;> simp [ItemPhrase.value, ItemPhrase.nested?, Value.message?]

theorem ItemsPhrase.filterMap_values (l : ItemsPhrase) :
    l.values.filterMap Value.message? = l.nested.map MessagePhrase.message := by
  fun_induction ItemsPhrase.nested l with
  | case1 i =>
    rw [ItemsPhrase.values, List.filterMap_cons, i.message?_value]
    cases i.nested? <;> rfl
  | case2 i l ih =>
    rw [ItemsPhrase.values, List.filterMap_cons, i.message?_value, ih]
    cases i.nested? <;> rfl

theorem BodyPhrase.filterMap_values (b : BodyPhrase) :
    b.values.filterMap Value.message? = b.nestedMessages.map MessagePhrase.message := by
  cases b with
  | nested colon d p => simp [BodyPhrase.values, BodyPhrase.nestedMessages, Value.message?]
  | emptyList colon => rfl
  | list colon l =>
    rw [BodyPhrase.values, BodyPhrase.nestedMessages]
    exact l.filterMap_values
  | scalar s => simp [BodyPhrase.values, BodyPhrase.nestedMessages, Value.message?]

theorem messages_map_value (fieldName name : String) (values : List Value) :
    Message.messages (values.map (fieldName, ·)) name =
      if fieldName = name then values.filterMap Value.message? else [] := by
  rw [Message.messages, filterMap_all, List.filterMap_map]
  split
  · next hname =>
    congr 1
    funext v
    exact if_pos hname
  · next hname =>
    rw [List.filterMap_eq_nil_iff]
    intro v _
    exact if_neg hname

/-- The messages of a name are those that are written under it, in their order. -/
theorem MessagePhrase.messages_message (p : MessagePhrase) (name : String) :
    p.message.messages name = (p.blocks name).map MessagePhrase.message := by
  fun_induction MessagePhrase.blocks name p with
  | case1 => rfl
  | case2 n b s p ih =>
    rw [MessagePhrase.message, Message.messages_append, messages_map_value, ih,
      b.filterMap_values, List.map_append]
    split <;> rfl

end CorpusAnnotator.TextFormat
