import CorpusAnnotator.Proofs.MasterSpec.Components

/-! What a text declares as a master spec. Its components are the messages under one name on the
outermost level, however they are written, and few of the fields in them count. -/
namespace CorpusAnnotator.MasterSpec

open Results Number
open TextFormat (Message MessagePhrase Value Located bare tokens valueOf? filterMap_all)

variable {index : Nat} {m n : Message} {name : String} {e : Error}

/-! ## Fields that count -/

/-- Of a transition system, the texts for its registered name. -/
def systemField? : String × Value → Option (String × Value)
  | (name, .scalar text) => if name = "registered_name" then some (name, .scalar text) else none
  | (_, .message _) => none

def systemPart (system : Message) : Message :=
  system.filterMap systemField?

/-- Of a component, the texts for its name and its number of actions, and its transition systems. -/
def componentField? : String × Value → Option (String × Value)
  | (name, .scalar text) =>
    if name = "name" ∨ name = "num_actions" then some (name, .scalar text) else none
  | (name, .message fields) =>
    if name = "transition_system" then some (name, .message (systemPart fields)) else none

def componentPart (m : Message) : Message :=
  m.filterMap componentField?

/-- Of a whole text, the components on the outermost level. -/
def specField? : String × Value → Option (String × Value)
  | (_, .scalar _) => none
  | (name, .message fields) =>
    if name = "component" then some (name, .message (componentPart fields)) else none

def specPart (m : Message) : Message :=
  m.filterMap specField?

/-- What a look-up finds in the fields that are kept, when each of them keeps what it has of it. -/
theorem filterMap_all_filterMap {α : Type} {kind? : Value → Option α}
    {keep : String × Value → Option (String × Value)} {f : α → α}
    (h : ∀ field, (keep field).bind (valueOf? kind? name) = (valueOf? kind? name field).map f)
    (m : Message) :
    (Message.all (m.filterMap keep) name).filterMap kind? =
      ((m.all name).filterMap kind?).map f := by
  rw [filterMap_all, filterMap_all, List.filterMap_filterMap, List.map_filterMap]
  congr 1
  funext field
  exact h field

theorem scalar?_systemPart (system : Message) :
    (systemPart system).scalar? "registered_name" = system.scalar? "registered_name" := by
  unfold Message.scalar? systemPart
  rw [filterMap_all_filterMap (f := id), List.map_id]
  rintro ⟨name, text | fields⟩
  · by_cases hname : name = "registered_name" <;> simp [systemField?, valueOf?, hname]
  · simp [systemField?, valueOf?, Value.scalar?]

theorem scalar?_componentPart (hname : name = "name" ∨ name = "num_actions") (m : Message) :
    (componentPart m).scalar? name = m.scalar? name := by
  unfold Message.scalar? componentPart
  rw [filterMap_all_filterMap (f := id), List.map_id]
  rintro ⟨fieldName, text | fields⟩
  · by_cases hfield : fieldName = name
    · simp [componentField?, valueOf?, hfield, hname]
    · by_cases hkept : fieldName = "name" ∨ fieldName = "num_actions" <;>
        simp [componentField?, valueOf?, hfield, hkept]
  · by_cases hkept : fieldName = "transition_system" <;>
      simp [componentField?, valueOf?, hkept, Value.scalar?]

theorem message?_componentPart (m : Message) :
    (componentPart m).message? "transition_system" =
      (m.message? "transition_system").map systemPart := by
  unfold Message.message? Message.messages componentPart
  rw [filterMap_all_filterMap (f := systemPart), List.head?_map]
  rintro ⟨fieldName, text | fields⟩
  · by_cases hkept : fieldName = "name" ∨ fieldName = "num_actions" <;>
      simp [componentField?, valueOf?, hkept, Value.message?]
  · by_cases hkept : fieldName = "transition_system" <;>
      simp [componentField?, valueOf?, hkept, Value.message?]

theorem messages_specPart (m : Message) :
    (specPart m).messages "component" = (m.messages "component").map componentPart := by
  unfold Message.messages specPart
  rw [filterMap_all_filterMap (f := componentPart)]
  rintro ⟨fieldName, text | fields⟩
  · simp [specField?, valueOf?, Value.message?]
  · by_cases hkept : fieldName = "component" <;>
      simp [specField?, valueOf?, hkept, Value.message?]

theorem component_componentPart (index : Nat) (m : Message) :
    component index (componentPart m) = component index m := by
  have hsystem : ((m.message? "transition_system").map systemPart).bind
      (·.scalar? "registered_name") =
        (m.message? "transition_system").bind (·.scalar? "registered_name") := by
    rw [Option.bind_map]
    congr 1
    funext system
    exact scalar?_systemPart system
  rw [component, component, scalar?_componentPart (.inl rfl), scalar?_componentPart (.inr rfl),
    message?_componentPart, hsystem]

theorem componentsFrom_map_componentPart (index : Nat) (bs : List Message) :
    componentsFrom index (bs.map componentPart) = componentsFrom index bs := by
  induction bs generalizing index with
  | nil => rfl
  | cons b bs ih =>
    rw [List.map_cons, componentsFrom, componentsFrom, component_componentPart]
    simp only [ih]

/-- The other fields change nothing. -/
theorem ofMessage_specPart (m : Message) : ofMessage (specPart m) = ofMessage m := by
  rw [ofMessage, ofMessage, messages_specPart, componentsFrom_map_componentPart]

/-! ## Texts -/

/-- A text with the tokens of a phrase is read as what the phrase denotes. -/
theorem read_of_phrase {s : String} {ts : List Located} {p : MessagePhrase}
    (htokens : tokens s.toList = .ok ts) (hts : bare ts = p.tokens) :
    Message.read s = .ok p.message := by
  rw [Message.read, htokens]
  exact p.ofTokens_eq hts

/-- The components are what the messages under their name declare, one for each in the order of the
text. The first that declares none is told, by its number if it has no name and else for its number
of actions. Besides the fields that count, nothing matters. -/
theorem read_declares_components (s : String) :
    (∀ spec, read s = .ok spec ↔
      ∃ m, Message.read s = .ok m ∧ m.messages "component" ≠ [] ∧
        List.Forall₂ Declares (m.messages "component") spec.components) ∧
    ((∃ spec, read s = .ok spec) ↔
      ∃ m, Message.read s = .ok m ∧ m.messages "component" ≠ [] ∧
        ∀ b ∈ m.messages "component", (∃ name, Message.First b .scalar "name" name) ∧
          ∀ text, Message.First b .scalar "num_actions" text → ∃ n, SpellsInt64 n text.toList) ∧
    (∀ e, read s = .error e ↔
      (∃ cause, Message.read s = .error cause ∧ e = .malformed cause) ∨
      ∃ m, Message.read s = .ok m ∧
        ((m.messages "component" = [] ∧ e = .noComponent) ∨
          FirstComplaint 0 (m.messages "component") e)) ∧
    (∀ ts (p : MessagePhrase), tokens s.toList = .ok ts → bare ts = p.tokens →
      ∃ m, Message.read s = .ok m ∧
        m.messages "component" = (p.blocks "component").map MessagePhrase.message) ∧
    (∀ m t n, Message.read s = .ok m → Message.read t = .ok n → specPart m = specPart n →
      read s = read t) := by
  refine ⟨fun spec => ?_, ?_, fun e => ?_, ?_, ?_⟩
  · simp only [read_eq_ok_iff, ofMessage_eq_ok_iff]
  · simp only [read_eq_ok_iff]
    rw [exists_comm]
    refine exists_congr fun m => ?_
    rw [exists_and_left, exists_ofMessage_iff]
  · simp only [read_eq_error_iff, ofMessage_eq_error_iff]
  · intro ts p htokens hts
    exact ⟨p.message, read_of_phrase htokens hts, p.messages_message "component"⟩
  · intro m t n hm hn hpart
    rw [read, read, hm, hn]
    simp only
    rw [← ofMessage_specPart m, hpart, ofMessage_specPart]

/-- A component in a list, with a message for a name in front of its name. The text that stands for
another component and the component inside of this one change nothing. -/
theorem read_declares_components_nested :
    let s := "component:z component[<name<>name:a num_actions:+7 component<name:y> >]"
    let t := "component<name:a num_actions:+7>"
    let b : Message := [("name", .message []), ("name", .scalar "a"), ("num_actions", .scalar "+7"),
      ("component", .message [("name", .scalar "y")])]
    let m : Message := [("component", .scalar "z"), ("component", .message b)]
    let n : Message := [("component", .message [("name", .scalar "a"),
      ("num_actions", .scalar "+7")])]
    Message.read s = .ok m ∧ Message.read t = .ok n ∧ specPart m = specPart n ∧
    read s = .ok ⟨[⟨"a", none, some 7⟩]⟩ ∧ read s = read t := by
  intro s t b m n
  have hm : Message.read s = .ok m := by decide +kernel
  have hn : Message.read t = .ok n := by decide +kernel
  have hpart : specPart m = specPart n := rfl
  have hb : Declares b ⟨"a", none, some 7⟩ := (@component_eq_ok_iff 0 b _).mp (by decide +kernel)
  obtain ⟨hok, -, -, -, hsame⟩ := read_declares_components s
  refine ⟨hm, hn, hpart, ?_, hsame m t n hm hn hpart⟩
  exact (hok ⟨[⟨"a", none, some 7⟩]⟩).mpr ⟨m, hm, List.cons_ne_nil b [], .cons hb .nil⟩

end CorpusAnnotator.MasterSpec
