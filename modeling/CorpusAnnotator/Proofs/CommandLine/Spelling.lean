import CorpusAnnotator.Proofs.CommandLine.Reading
import CorpusAnnotator.Proofs.CommandLine.Storing
import Mathlib.Data.List.Forall2

/-! Options as they are written. Whatever its spelling, an option is stored where it stands; so a
command line that is read says no more than which options it uses, one after the other. -/
namespace CorpusAnnotator.CommandLine

open Results

/-- The ways to write an option: a switch alone, a value behind an equals sign or, where it does not
begin with a hyphen, as the next argument. -/
inductive Use.Spelled : Use → List String → Prop
  | alone (s : Switch) : Spelled ⟨.switch s, none⟩ ["--" ++ s.name]
  | joined (o : Valued) (value : String) :
      Spelled ⟨.valued o, some value⟩ ["--" ++ o.name ++ "=" ++ value]
  | apart (o : Valued) {value : String} (h : value.toList.head? ≠ some '-') :
      Spelled ⟨.valued o, some value⟩ ["--" ++ o.name, value]

variable {p : Progress} {a a' : Arguments} {u : Use} {us vs : List Use}
  {spelled after : List String} {pieces : List (List String)}

theorem lookup_name (f : Flag) : flags.lookup f.name = some f := by
  rcases f with o | s
  · cases o <;> rfl
  · cases s <;> rfl

theorem forall_mem_name (f : Flag) : ∀ c ∈ f.name.toList, (decide (c ≠ '=')) = true := by
  refine List.all_eq_true.mp ?_
  rcases f with o | s
  · cases o <;> rfl
  · cases s <;> rfl

theorem name_ne_nil (f : Flag) : f.name.toList ≠ [] := by
  rcases f with o | s
  · cases o <;> decide
  · cases s <;> decide

/-- A name with nothing behind it. -/
theorem splitLong_name (f : Flag) : splitLong f.name.toList = (f.name, none) := by
  rcases f with o | s
  · cases o <;> rfl
  · cases s <;> rfl

/-- A name with a value, which may hold further equals signs. -/
theorem splitLong_equals (f : Flag) (value : String) :
    splitLong (f.name.toList ++ '=' :: value.toList) = (f.name, some value) := by
  have hname := forall_mem_name f
  have hbefore : (f.name.toList ++ '=' :: value.toList).takeWhile (· ≠ '=') = f.name.toList := by
    rw [List.takeWhile_append_of_pos hname, List.takeWhile_cons_of_neg (by decide),
      List.append_nil]
  have hbehind : (f.name.toList ++ '=' :: value.toList).dropWhile (· ≠ '=') =
      '=' :: value.toList := by
    rw [List.dropWhile_append_of_pos hname, List.dropWhile_cons_of_neg (by decide)]
  simp only [splitLong, hbefore, hbehind, String.ofList_toList]

theorem Progress.long_name (p : Progress) (f : Flag) : p.long f.name.toList =
    match f with
    | .valued o => do return ⟨← p.settle, some (o, none)⟩
    | .switch s => p.switch s := by
  rw [Progress.long, splitLong_name]
  simp only [lookup_name]
  cases f <;> rfl

theorem Progress.long_equals (p : Progress) (f : Flag) (value : String) :
    p.long (f.name.toList ++ '=' :: value.toList) =
      match f with
      | .valued o => do return ⟨← o.store value (← p.settle), none⟩
      | .switch _ => .error .unwantedValue := by
  rw [Progress.long, splitLong_equals]
  simp only [lookup_name]
  cases f <;> rfl

/-- However an option is written, it is stored behind whatever has been waiting to be stored. -/
theorem Use.Spelled.read_iff (h : u.Spelled spelled) :
    p.read (spelled ++ after) = .ok a' ↔ ∃ a₀ a₁, p.settle = .ok a₀ ∧ u.store a₀ = .ok a₁ ∧
      Progress.read ⟨a₁, none⟩ after = .ok a' := by
  cases h with
  | alone s =>
    have hargument : ("--" ++ s.name).toList = '-' :: '-' :: (Flag.switch s).name.toList := by
      simp [String.toList_append, Flag.name]
    rw [List.singleton_append, Progress.read_long hargument (name_ne_nil _), Progress.long_name]
    simp only [Progress.switch, bind_assoc, pure_bind, bind_eq_ok_iff, exists_and_left, Use.store]
  | joined o value =>
    have hargument : ("--" ++ o.name ++ "=" ++ value).toList =
        '-' :: '-' :: ((Flag.valued o).name.toList ++ '=' :: value.toList) := by
      simp [String.toList_append, Flag.name]
    rw [List.singleton_append, Progress.read_long hargument (by simp), Progress.long_equals]
    simp only [bind_assoc, pure_bind, bind_eq_ok_iff, exists_and_left, Use.store]
  | @apart o value hvalue =>
    have hargument : ("--" ++ o.name).toList = '-' :: '-' :: (Flag.valued o).name.toList := by
      simp [String.toList_append, Flag.name]
    have hend : value ≠ "--" := by
      rintro rfl
      exact hvalue rfl
    rw [List.cons_append, List.singleton_append, Progress.read_long hargument (name_ne_nil _),
      Progress.long_name]
    simp only [bind_assoc, pure_bind, bind_eq_ok_iff, Progress.read_cons hend,
      Progress.advance_of_pending hvalue, ok_bind, Progress.read_iff_of_value, exists_and_left,
      Use.store]

/-- Options in whatever spelling are stored one after the other. -/
theorem read_pieces_iff (h : List.Forall₂ Use.Spelled us pieces) :
    Progress.read ⟨a, none⟩ pieces.flatten = .ok a' ↔ storeAll us a = .ok a' := by
  induction h generalizing a with
  | nil => rfl
  | cons hu _ ih =>
    rw [List.flatten_cons, hu.read_iff, storeAll_cons, bind_eq_ok_iff]
    constructor
    · rintro ⟨a₀, a₁, hsettle, hstore, hread⟩
      cases hsettle
      exact ⟨a₁, hstore, ih.mp hread⟩
    · rintro ⟨a₁, hstore, hall⟩
      exact ⟨a, a₁, rfl, hstore, ih.mpr hall⟩

/-! ## What is read is a list of options -/

/-- A step that goes well where these options can be stored, and stores them. -/
def Reads (us : List Use) (F : Arguments → Except Refusal Arguments) : Prop :=
  ∀ a a', F a = .ok a' ↔ storeAll us a = .ok a'

namespace Reads

variable {F G : Arguments → Except Refusal Arguments}

theorem ok : Reads [] .ok := fun _ _ => Iff.rfl

/-- What fails reads an option that cannot be stored. -/
theorem error (e : Refusal) : Reads [⟨.valued .config, none⟩] fun _ => .error e :=
  fun _ _ => ⟨nofun, nofun⟩

theorem store (u : Use) : Reads [u] u.store := by
  intro a a'
  rw [storeAll_cons, bind_eq_ok_iff]
  constructor
  · intro h
    exact ⟨a', h, rfl⟩
  · rintro ⟨b, hb, h⟩
    cases h
    exact hb

theorem bind (hF : Reads us F) (hG : Reads vs G) : Reads (us ++ vs) fun a => F a >>= G := by
  intro a a'
  rw [storeAll_append, bind_eq_ok_iff, bind_eq_ok_iff]
  exact exists_congr fun b => and_congr (hF a b) (hG b a')

theorem exists_settle (pending : Option (Valued × Option String)) :
    ∃ us, Reads us fun a => (Progress.mk a pending).settle := by
  rcases pending with - | ⟨o, - | value⟩
  · exact ⟨_, .ok⟩
  · exact ⟨_, .error .missingValue⟩
  · exact ⟨_, .store ⟨.valued o, some value⟩⟩

/-- Whatever is waiting for its value, and whatever is still to be read. -/
theorem exists_read (pending : Option (Valued × Option String)) (arguments : List String) :
    ∃ us, Reads us fun a => (Progress.mk a pending).read arguments := by
  induction arguments generalizing pending with
  | nil => exact exists_settle pending
  | cons argument rest ih =>
    obtain ⟨settled, hsettle⟩ := exists_settle pending
    have hswitch (s : Switch) :
        ∃ us, Reads us fun a => (Progress.mk a pending).switch s >>= (·.read rest) := by
      obtain ⟨us, hrest⟩ := ih none
      simp only [Progress.switch, bind_assoc, pure_bind]
      exact ⟨_, hsettle.bind ((Reads.store ⟨.switch s, none⟩).bind hrest)⟩
    by_cases hend : argument = "--"
    · subst hend
      simp only [Progress.read_end]
      cases rest with
      | nil => exact ⟨_, hsettle⟩
      | cons next rest => exact ⟨_, .error .unknownArgument⟩
    · simp only [Progress.read_cons hend, Progress.advance]
      split
      · next text _ =>
        simp only [Progress.long]
        split
        · exact ⟨_, .error .unknownArgument⟩
        · next o _ _ =>
          obtain ⟨us, hrest⟩ := ih (some (o, none))
          simp only [bind_assoc, pure_bind]
          exact ⟨_, hsettle.bind hrest⟩
        · next o value _ _ =>
          obtain ⟨us, hrest⟩ := ih none
          simp only [bind_assoc, pure_bind]
          exact ⟨_, hsettle.bind ((Reads.store ⟨.valued o, some value⟩).bind hrest)⟩
        · next s _ _ => exact hswitch s
        · exact ⟨_, .error .unwantedValue⟩
      · split
        · exact hswitch .help
        · split
          · exact hswitch .version
          · exact ⟨_, .error .unknownArgument⟩
      · rcases pending with - | ⟨o, - | value⟩
        · exact ⟨_, .error .unknownArgument⟩
        · exact ih (some (o, some argument))
        · exact ⟨_, .error .unknownArgument⟩

end Reads

end CorpusAnnotator.CommandLine
