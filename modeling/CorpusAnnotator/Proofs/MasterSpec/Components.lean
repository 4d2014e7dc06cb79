import Mathlib.Data.List.Forall2
import CorpusAnnotator.MasterSpec
import CorpusAnnotator.Proofs.Number.Integer
import CorpusAnnotator.Proofs.TextFormat.Acceptance
import CorpusAnnotator.Proofs.TextFormat.Fields

/-! What a master spec declares. -/
namespace CorpusAnnotator.MasterSpec

open Results Number
open TextFormat (Message MessagePhrase Value bare tokens)

variable {index : Nat} {m b : Message} {bs : List Message} {c : Component} {cs : List Component}
  {e : Error}

/-! ## One component -/

/-- The number of actions that a message gives, or none where it gives no text for it. -/
inductive DeclaresActions (m : Message) : Option Int → Prop where
  | none : (∀ text, ("num_actions", .scalar text) ∉ m) → DeclaresActions m none
  | some {text : String} {n : Int} : m.First .scalar "num_actions" text →
      SpellsInt64 n text.toList → DeclaresActions m (some n)

/-- A message declares a component. -/
structure Declares (m : Message) (c : Component) : Prop where
  name : m.First .scalar "name" c.name
  transitionSystem : ∀ text, c.transitionSystem = some text ↔
    ∃ system : Message, m.First .message "transition_system" system ∧
      system.First .scalar "registered_name" text
  actions : DeclaresActions m c.actions

/-- What is said about a message, the first that declares no component. Its name comes first. -/
inductive Complains (index : Nat) (m : Message) : Error → Prop where
  | unnamed : (∀ text, ("name", .scalar text) ∉ m) → Complains index m (.unnamed index)
  | badActions {name text : String} {reason : IntegerError} : m.First .scalar "name" name →
      m.First .scalar "num_actions" text → (¬ ∃ n, SpellsInt64 n text.toList) →
      readInt64 text.toList = .error reason → Complains index m (.badActions name text reason)

/-- The registered name of the transition system of a component, if it has one. -/
theorem bind_scalar?_eq_some_iff {text : String} :
    (m.message? "transition_system").bind (·.scalar? "registered_name") = some text ↔
      ∃ system : Message, m.First .message "transition_system" system ∧
        system.First .scalar "registered_name" text := by
  rw [Option.bind_eq_some_iff]
  refine exists_congr fun system => ?_
  rw [Message.message?_eq_some_iff, Message.scalar?_eq_some_iff]

theorem declares_iff :
    Declares m c ↔ m.scalar? "name" = some c.name ∧
      c.transitionSystem = (m.message? "transition_system").bind (·.scalar? "registered_name") ∧
      DeclaresActions m c.actions := by
  constructor
  · rintro ⟨hname, hsystem, hactions⟩
    refine ⟨Message.scalar?_eq_some_iff.mpr hname, ?_, hactions⟩
    apply Option.ext
    intro text
    rw [hsystem, bind_scalar?_eq_some_iff]
  · rintro ⟨hname, hsystem, hactions⟩
    refine ⟨Message.scalar?_eq_some_iff.mp hname, fun text => ?_, hactions⟩
    rw [hsystem, bind_scalar?_eq_some_iff]

theorem component_of_unnamed (hname : m.scalar? "name" = none) :
    component index m = .error (.unnamed index) := by
  rw [component, hname]
  rfl

theorem component_of_no_actions {name : String} (hname : m.scalar? "name" = some name)
    (hactions : m.scalar? "num_actions" = none) :
    component index m = .ok ⟨name,
      (m.message? "transition_system").bind (·.scalar? "registered_name"), none⟩ := by
  rw [component, hname, hactions]
  rfl

theorem component_of_actions {name text : String} {n : Int}
    (hname : m.scalar? "name" = some name) (hactions : m.scalar? "num_actions" = some text)
    (hread : readInt64 text.toList = .ok n) :
    component index m = .ok ⟨name,
      (m.message? "transition_system").bind (·.scalar? "registered_name"), some n⟩ := by
  rw [component, hname, hactions]
  simp only [hread]
  rfl

theorem component_of_bad_actions {name text : String} {reason : IntegerError}
    (hname : m.scalar? "name" = some name) (hactions : m.scalar? "num_actions" = some text)
    (hread : readInt64 text.toList = .error reason) :
    component index m = .error (.badActions name text reason) := by
  rw [component, hname, hactions]
  simp only [hread]
  rfl

/-- A message declares a component, or it is told why it does not. -/
theorem declares_or_complains (index : Nat) (m : Message) :
    (∃ c, component index m = .ok c ∧ Declares m c) ∨
      ∃ e, component index m = .error e ∧ Complains index m e := by
  cases hname : m.scalar? "name" with
  | none =>
    exact .inr ⟨_, component_of_unnamed hname, .unnamed (Message.scalar?_eq_none_iff.mp hname)⟩
  | some name =>
    cases hactions : m.scalar? "num_actions" with
    | none =>
      refine .inl ⟨_, component_of_no_actions hname hactions, declares_iff.mpr ⟨hname, rfl, ?_⟩⟩
      exact .none (Message.scalar?_eq_none_iff.mp hactions)
    | some text =>
      have hfirst := Message.scalar?_eq_some_iff.mp hactions
      cases hread : readInt64 text.toList with
      | ok n =>
        refine .inl ⟨_, component_of_actions hname hactions hread,
          declares_iff.mpr ⟨hname, rfl, ?_⟩⟩
        exact .some hfirst (readInt64_eq_ok_iff.mp hread)
      | error reason =>
        refine .inr ⟨_, component_of_bad_actions hname hactions hread, ?_⟩
        exact .badActions (Message.scalar?_eq_some_iff.mp hname) hfirst
          (exists_readInt64_error_iff.mp ⟨reason, hread⟩) hread

theorem Declares.component (h : Declares m c) (index : Nat) : component index m = .ok c := by
  obtain ⟨name, system, actions⟩ := c
  obtain ⟨hname, hsystem, hactions⟩ := declares_iff.mp h
  cases hactions with
  | none hnone =>
    rw [component_of_no_actions hname (Message.scalar?_eq_none_iff.mpr hnone), ← hsystem]
  | some hfirst hn =>
    rw [component_of_actions hname (Message.scalar?_eq_some_iff.mpr hfirst)
      (readInt64_eq_ok_iff.mpr hn), ← hsystem]

theorem Complains.component (h : Complains index m e) : component index m = .error e := by
  cases h with
  | unnamed hnone => exact component_of_unnamed (Message.scalar?_eq_none_iff.mpr hnone)
  | badActions hname hactions _ hread =>
    exact component_of_bad_actions (Message.scalar?_eq_some_iff.mpr hname)
      (Message.scalar?_eq_some_iff.mpr hactions) hread

theorem component_eq_ok_iff : component index m = .ok c ↔ Declares m c := by
  constructor
  · intro h
    rcases declares_or_complains index m with ⟨c', hc, hdeclares⟩ | ⟨e, he, -⟩
    · rw [hc] at h
      cases h
      exact hdeclares
    · rw [he] at h
      cases h
  · exact fun h => h.component index

/-! ## All components -/

theorem componentsFrom_eq_ok_iff :
    componentsFrom index bs = .ok cs ↔ List.Forall₂ Declares bs cs := by
  induction bs generalizing index cs with
  | nil =>
    rw [componentsFrom, List.forall₂_nil_left_iff]
    simp [eq_comm]
  | cons b bs ih =>
    rw [componentsFrom, bind_eq_ok_iff]
    constructor
    · rintro ⟨c, hc, h⟩
      obtain ⟨cs, hcs, h⟩ := bind_eq_ok_iff.mp h
      cases h
      exact .cons (component_eq_ok_iff.mp hc) (ih.mp hcs)
    · intro h
      cases h with
      | cons hc hcs =>
        exact ⟨_, hc.component index, bind_eq_ok_iff.mpr ⟨_, ih.mpr hcs, rfl⟩⟩

/-- The first message that declares no component, told by how many stand in front of it. -/
def FirstComplaint (index : Nat) (bs : List Message) (e : Error) : Prop :=
  ∃ before b after, bs = before ++ b :: after ∧ (∀ a ∈ before, ∃ c, Declares a c) ∧
    Complains (index + before.length) b e

theorem firstComplaint_cons (hc : Declares b c) :
    FirstComplaint index (b :: bs) e ↔ FirstComplaint (index + 1) bs e := by
  constructor
  · rintro ⟨before, b', after, hbs, hbefore, he⟩
    cases before with
    | nil =>
      obtain ⟨rfl, rfl⟩ := List.cons.inj hbs
      have hcomponent := he.component
      rw [hc.component] at hcomponent
      cases hcomponent
    | cons a before =>
      obtain ⟨rfl, rfl⟩ := List.cons.inj hbs
      refine ⟨before, b', after, rfl, (List.forall_mem_cons.mp hbefore).2, ?_⟩
      rwa [List.length_cons, Nat.add_comm before.length, ← Nat.add_assoc] at he
  · rintro ⟨before, b', after, rfl, hbefore, he⟩
    refine ⟨b :: before, b', after, rfl, List.forall_mem_cons.mpr ⟨⟨c, hc⟩, hbefore⟩, ?_⟩
    rwa [List.length_cons, Nat.add_comm before.length, ← Nat.add_assoc]

theorem firstComplaint_of_complains {e' : Error} (h : Complains index b e') :
    FirstComplaint index (b :: bs) e ↔ e = e' := by
  constructor
  · rintro ⟨before, b', after, hbs, hbefore, he⟩
    have hb := h.component
    cases before with
    | nil =>
      obtain ⟨rfl, rfl⟩ := List.cons.inj hbs
      exact Except.error.inj (he.component.symm.trans hb)
    | cons a before =>
      obtain ⟨rfl, rfl⟩ := List.cons.inj hbs
      obtain ⟨c, hc⟩ := hbefore b List.mem_cons_self
      cases (hc.component index).symm.trans hb
  · rintro rfl
    exact ⟨[], b, bs, rfl, by simp, h⟩

/-- Going through messages stops at the first that declares no component. -/
theorem componentsFrom_eq_error_iff :
    componentsFrom index bs = .error e ↔ FirstComplaint index bs e := by
  induction bs generalizing index with
  | nil =>
    rw [componentsFrom]
    refine iff_of_false (by simp) ?_
    rintro ⟨before, b, after, hbs, -⟩
    exact List.append_ne_nil_of_right_ne_nil before (List.cons_ne_nil b after) hbs.symm
  | cons b bs ih =>
    rw [componentsFrom, bind_eq_error_iff]
    rcases declares_or_complains index b with ⟨c, hc, hdeclares⟩ | ⟨e', he', hcomplains⟩
    · rw [firstComplaint_cons hdeclares, ← ih, hc]
      simp [bind_eq_error_iff]
    · rw [firstComplaint_of_complains hcomplains, he']
      simp [eq_comm]

/-! ## Specs -/

theorem ofMessage_eq_ok_iff {spec : MasterSpec} :
    ofMessage m = .ok spec ↔ m.messages "component" ≠ [] ∧
      List.Forall₂ Declares (m.messages "component") spec.components := by
  rw [ofMessage, bind_eq_ok_iff]
  constructor
  · rintro ⟨cs, hcs, h⟩
    have hall := componentsFrom_eq_ok_iff.mp hcs
    cases cs with
    | nil => cases h
    | cons c cs =>
      cases h
      refine ⟨fun hnil => ?_, hall⟩
      rw [hnil] at hall
      cases hall
  · rintro ⟨hne, hall⟩
    obtain ⟨cs⟩ := spec
    refine ⟨cs, componentsFrom_eq_ok_iff.mpr hall, ?_⟩
    cases cs with
    | nil => exact absurd (List.forall₂_nil_right_iff.mp hall) hne
    | cons c cs => rfl

theorem ofMessage_eq_error_iff :
    ofMessage m = .error e ↔ (m.messages "component" = [] ∧ e = .noComponent) ∨
      FirstComplaint 0 (m.messages "component") e := by
  rw [ofMessage, bind_eq_error_iff, componentsFrom_eq_error_iff, or_comm]
  refine or_congr_left ?_
  constructor
  · rintro ⟨cs, hcs, h⟩
    have hall := componentsFrom_eq_ok_iff.mp hcs
    cases cs with
    | nil =>
      cases h
      exact ⟨List.forall₂_nil_right_iff.mp hall, rfl⟩
    | cons c cs => cases h
  · rintro ⟨hnil, rfl⟩
    exact ⟨[], componentsFrom_eq_ok_iff.mpr (hnil ▸ .nil), rfl⟩

theorem read_eq_ok_iff {s : String} {spec : MasterSpec} :
    read s = .ok spec ↔ ∃ m, Message.read s = .ok m ∧ ofMessage m = .ok spec := by
  unfold read
  cases Message.read s <;> simp

theorem read_eq_error_iff {s : String} :
    read s = .error e ↔ (∃ cause, Message.read s = .error cause ∧ e = .malformed cause) ∨
      ∃ m, Message.read s = .ok m ∧ ofMessage m = .error e := by
  unfold read
  cases Message.read s <;> simp [eq_comm]

/-- A component is declared by a name and, if a number of actions is given, by a proper one. -/
theorem exists_declares_iff :
    (∃ c, Declares m c) ↔ (∃ name, m.First .scalar "name" name) ∧
      ∀ text, m.First .scalar "num_actions" text → ∃ n, SpellsInt64 n text.toList := by
  constructor
  · rintro ⟨c, hname, -, hactions⟩
    refine ⟨⟨c.name, hname⟩, fun text htext => ?_⟩
    have hfirst := Message.scalar?_eq_some_iff.mpr htext
    generalize c.actions = actions at hactions
    cases hactions with
    | none hnone =>
      rw [Message.scalar?_eq_none_iff.mpr hnone] at hfirst
      cases hfirst
    | some htext' hn =>
      rw [Message.scalar?_eq_some_iff.mpr htext'] at hfirst
      cases hfirst
      exact ⟨_, hn⟩
  · rintro ⟨⟨name, hname⟩, hactions⟩
    rcases declares_or_complains 0 m with ⟨c, -, hc⟩ | ⟨e, -, he⟩
    · exact ⟨c, hc⟩
    · cases he with
      | unnamed hnone =>
        rw [← Message.scalar?_eq_none_iff, Message.scalar?_eq_some_iff.mpr hname] at hnone
        cases hnone
      | badActions _ htext hbad _ => exact absurd (hactions _ htext) hbad

theorem exists_forall₂_declares_iff :
    (∃ cs, List.Forall₂ Declares bs cs) ↔ ∀ b ∈ bs, ∃ c, Declares b c := by
  induction bs with
  | nil => exact iff_of_true ⟨[], .nil⟩ (by simp)
  | cons b bs ih =>
    rw [List.forall_mem_cons, ← ih]
    constructor
    · rintro ⟨_, h⟩
      cases h with
      | cons hc hcs => exact ⟨⟨_, hc⟩, ⟨_, hcs⟩⟩
    · rintro ⟨⟨c, hc⟩, ⟨cs, hcs⟩⟩
      exact ⟨c :: cs, .cons hc hcs⟩

theorem exists_ofMessage_iff :
    (∃ spec, ofMessage m = .ok spec) ↔ m.messages "component" ≠ [] ∧
      ∀ b ∈ m.messages "component", (∃ name, Message.First b .scalar "name" name) ∧
        ∀ text, Message.First b .scalar "num_actions" text → ∃ n, SpellsInt64 n text.toList := by
  simp only [ofMessage_eq_ok_iff, ← exists_declares_iff]
  rw [← exists_forall₂_declares_iff]
  constructor
  · rintro ⟨spec, hne, h⟩
    exact ⟨hne, spec.components, h⟩
  · rintro ⟨hne, cs, h⟩
    exact ⟨⟨cs⟩, hne, h⟩

end CorpusAnnotator.MasterSpec
