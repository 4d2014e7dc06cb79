import CorpusAnnotator.Proofs.CommandLine.Spelling

/-! Counts on a command line. An option that takes a count is read wherever it stands, and whatever
stands around it is read as it would be with any other count in its place. -/
namespace CorpusAnnotator.CommandLine

open Number (SpellsNat maxNat64)
open Results

variable {a a' a₀ : Arguments} {text : String}
  {before after given : List String} {n : Nat}

/-- The options that take a count. -/
inductive CountOption where
  | threads
  | batchSize
  deriving Repr, DecidableEq

namespace CountOption

def valued : CountOption → Valued
  | .threads => .threads
  | .batchSize => .batchSize

def name : CountOption → String
  | .threads => "threads"
  | .batchSize => "batch_size"

/-- What the command line says of the count, if anything. -/
def count? (o : CountOption) (v : Overrides) : Option Nat :=
  match o with
  | .threads => v.threads
  | .batchSize => v.batchSize

/-- The same with a count, whether there was one before or not. -/
def withCount (o : CountOption) (n : Nat) (v : Overrides) : Overrides :=
  match o with
  | .threads => { v with threads := some n }
  | .batchSize => { v with batchSize := some n }

/-- The count that has been given. -/
def given? (o : CountOption) (a : Arguments) : Option Nat := o.count? a.overrides

/-- Arguments with a count given. -/
def give (o : CountOption) (n : Nat) (a : Arguments) : Arguments :=
  match o with
  | .threads => { a with threads := some n }
  | .batchSize => { a with batchSize := some n }

/-- The ways to give a text as the count: behind an equals sign or as the next argument. -/
def spellings (o : CountOption) (text : String) : List (List String) :=
  [["--" ++ o.name ++ "=" ++ text], ["--" ++ o.name, text]]

variable {o : CountOption}

theorem given?_give (o : CountOption) (n : Nat) (a : Arguments) :
    o.given? (o.give n a) = some n := by
  cases o <;> rfl

theorem config_give (o : CountOption) (n : Nat) (a : Arguments) :
    (o.give n a).config = a.config := by
  cases o <;> rfl

theorem overrides_give (o : CountOption) (n : Nat) (a : Arguments) :
    (o.give n a).overrides = o.withCount n a.overrides := by
  cases o <;> rfl

theorem withCount_of_given? (h : o.given? a = some n) :
    o.withCount n a.overrides = a.overrides := by
  cases o <;> cases a <;> cases h <;> rfl

theorem give_give (o : CountOption) (n m : Nat) (a : Arguments) :
    o.give n (o.give m a) = o.give n a := by
  cases o <;> rfl

/-- A count is stored once, and only a numeral that fits a word. -/
theorem store_eq_ok_iff : o.valued.store text a = .ok a' ↔
    o.given? a = none ∧ ∃ n, SpellsNat n text.toList ∧ n ≤ maxNat64 ∧ a' = o.give n a := by
  cases o <;>
  · simp only [valued, Valued.store, bind_eq_ok_iff, onceCount_eq_ok_iff, given?, count?]
    constructor
    · rintro ⟨_, ⟨hnone, n, hspells, hle, rfl⟩, h⟩
      cases h
      exact ⟨hnone, n, hspells, hle, rfl⟩
    · rintro ⟨hnone, n, hspells, hle, rfl⟩
      exact ⟨_, ⟨hnone, n, hspells, hle, rfl⟩, rfl⟩

/-! ## What is around a count -/

/-- A step that gives the count where there is none, or else leaves it and would do the same with any
other. -/
def Leaves (o : CountOption) (f : Arguments → Except Refusal Arguments) : Prop :=
  ∀ a a', f a = .ok a' →
    (o.given? a = none ∧ o.given? a' ≠ none) ∨
      (o.given? a' = o.given? a ∧ ∀ n, f (o.give n a) = .ok (o.give n a'))

theorem Leaves.ok : Leaves o .ok := by
  intro a a' h
  cases h
  exact .inr ⟨rfl, fun n => rfl⟩

theorem Leaves.error (e : Refusal) : Leaves o fun _ => .error e := by
  intro a a' h
  cases h

theorem Leaves.bind {f g : Arguments → Except Refusal Arguments} (hf : Leaves o f)
    (hg : Leaves o g) : Leaves o fun a => f a >>= g := by
  intro a a' h
  obtain ⟨a₁, hfirst, hsecond⟩ := bind_eq_ok_iff.mp h
  rcases hf a a₁ hfirst with ⟨hnone, hsome⟩ | ⟨hsame, hother⟩
  · rcases hg a₁ a' hsecond with ⟨hnone', -⟩ | ⟨hsame', -⟩
    · exact absurd hnone' hsome
    · exact .inl ⟨hnone, hsame' ▸ hsome⟩
  · rcases hg a₁ a' hsecond with ⟨hnone', hsome'⟩ | ⟨hsame', hother'⟩
    · exact .inl ⟨hsame ▸ hnone', hsome'⟩
    · exact .inr ⟨hsame'.trans hsame, fun n => bind_eq_ok_iff.mpr ⟨_, hother n, hother' n⟩⟩

theorem leaves_store (o : CountOption) (v : Valued) (value : String) : Leaves o (v.store value) := by
  intro a a' h
  by_cases hv : v = o.valued
  · subst hv
    obtain ⟨hnone, n, -, -, rfl⟩ := store_eq_ok_iff.mp h
    exact .inl ⟨hnone, by rw [given?_give]; exact Option.some_ne_none n⟩
  · -- any other option is stored beside the count
    right
    cases v with
    | config =>
      obtain ⟨config, hconfig, h⟩ := bind_eq_ok_iff.mp h
      split at h
      · cases h
      · next hvalue =>
        cases h
        cases o <;> exact ⟨rfl, fun n => bind_eq_ok_iff.mpr ⟨config, hconfig, if_neg hvalue⟩⟩
    | threads =>
      obtain ⟨count, hcount, h⟩ := bind_eq_ok_iff.mp h
      cases h
      cases o with
      | threads => exact absurd rfl hv
      | batchSize => exact ⟨rfl, fun n => bind_eq_ok_iff.mpr ⟨count, hcount, rfl⟩⟩
    | batchSize =>
      obtain ⟨count, hcount, h⟩ := bind_eq_ok_iff.mp h
      cases h
      cases o with
      | threads => exact ⟨rfl, fun n => bind_eq_ok_iff.mpr ⟨count, hcount, rfl⟩⟩
      | batchSize => exact absurd rfl hv
    | _ =>
      obtain ⟨text, htext, h⟩ := bind_eq_ok_iff.mp h
      cases h
      cases o <;> exact ⟨rfl, fun n => bind_eq_ok_iff.mpr ⟨text, htext, rfl⟩⟩

theorem leaves_switch (o : CountOption) (s : Switch) : Leaves o s.store := by
  intro a a' h
  right
  cases s with
  | evaluate | strict =>
    simp only [Switch.store] at h
    split at h
    · cases h
    · next hoff =>
      cases h
      cases o <;> exact ⟨rfl, fun n => if_neg hoff⟩
  | help | version => cases h

theorem leaves_storeAll (o : CountOption) (us : List Use) : Leaves o (storeAll us) := by
  induction us with
  | nil => exact .ok
  | cons u us ih =>
    have hu : Leaves o u.store := by
      obtain ⟨v | s, - | value⟩ := u
      · exact .error .missingValue
      · exact leaves_store o v value
      · exact leaves_switch o s
      · exact .error .unwantedValue
    exact hu.bind ih

/-- Whatever is still to be read. -/
theorem leaves_read (o : CountOption) (arguments : List String) :
    Leaves o fun a => Progress.read ⟨a, none⟩ arguments := by
  obtain ⟨us, hus⟩ := Reads.exists_read none arguments
  intro a a' h
  refine (leaves_storeAll o us a a' ((hus a a').mp h)).imp_right fun ⟨hsame, hother⟩ => ?_
  exact ⟨hsame, fun n => (hus _ _).mpr (hother n)⟩

/-! ## A count among other arguments -/

theorem head?_of_spellsNat {text : List Char} (h : SpellsNat n text) : text.head? ≠ some '-' := by
  intro hhead
  obtain ⟨rest, rfl⟩ := List.head?_eq_some_iff.mp hhead
  have hdigits := (Number.spellsNat_iff (by simp)).mp h
  exact hdigits.digit?_ne_none rfl

theorem spelled_of_mem (htext : text.toList.head? ≠ some '-') (hgiven : given ∈ o.spellings text) :
    Use.Spelled ⟨.valued o.valued, some text⟩ given := by
  have hname : o.name = o.valued.name := by cases o <;> rfl
  rw [spellings, hname, List.mem_cons, List.mem_singleton] at hgiven
  rcases hgiven with rfl | rfl
  · exact .joined o.valued text
  · exact .apart o.valued htext

section

variable {m : Nat} {text' : String} {given' : List String} (hspells : SpellsNat n text.toList)
  (hgiven : given ∈ o.spellings text)

include hspells hgiven

theorem parse_given_iff : parse (before ++ given ++ after) = .ok a ↔
    "--" ∉ before ∧ ∃ a₀, parse before = .ok a₀ ∧ o.given? a₀ = none ∧ n ≤ maxNat64 ∧
      Progress.read ⟨o.give n a₀, none⟩ after = .ok a := by
  have hspelled := spelled_of_mem (head?_of_spellsNat hspells) hgiven
  have hne : given ++ after ≠ [] := by
    intro hnil
    rw [(List.append_eq_nil_iff.mp hnil).1] at hgiven
    simp [spellings] at hgiven
  have hbefore (hend : "--" ∉ before) : parse before =
      before.foldlM Progress.advance .start >>= Progress.settle := by
    have happend := Progress.read_append hend .start []
    rw [List.append_nil] at happend
    exact happend
  rw [parse, List.append_assoc]
  constructor
  · intro h
    have hend := notMem_of_read h hne
    rw [Progress.read_append hend] at h
    obtain ⟨p, hp, h⟩ := bind_eq_ok_iff.mp h
    obtain ⟨a₀, a₁, hsettle, hstore, h⟩ := hspelled.read_iff.mp h
    obtain ⟨hnone, k, hk, hle, rfl⟩ := store_eq_ok_iff.mp hstore
    obtain rfl := hk.unique hspells
    exact ⟨hend, a₀, by rw [hbefore hend, hp]; exact hsettle, hnone, hle, h⟩
  · rintro ⟨hend, a₀, hparse, hnone, hle, h⟩
    rw [hbefore hend] at hparse
    obtain ⟨p, hp, hsettle⟩ := bind_eq_ok_iff.mp hparse
    rw [Progress.read_append hend, hp]
    exact hspelled.read_iff.mpr
      ⟨a₀, _, hsettle, store_eq_ok_iff.mpr ⟨hnone, n, hspells, hle, rfl⟩, h⟩

/-- A count on a command line that is read is a word, and is the count that is read. -/
theorem given?_of_parse (h : parse (before ++ given ++ after) = .ok a) :
    o.given? a = some n ∧ n ≤ maxNat64 := by
  obtain ⟨-, a₀, -, -, hle, hread⟩ := (parse_given_iff hspells hgiven).mp h
  refine ⟨?_, hle⟩
  rcases leaves_read o after _ _ hread with ⟨hnone, -⟩ | ⟨hsame, -⟩
  · rw [given?_give] at hnone
    cases hnone
  · rw [hsame, given?_give]

/-- Any other word may stand in its place. -/
theorem parse_of_other (hspells' : SpellsNat m text'.toList) (hgiven' : given' ∈ o.spellings text')
    (h : parse (before ++ given' ++ after) = .ok a) (hle : n ≤ maxNat64) :
    parse (before ++ given ++ after) = .ok (o.give n a) := by
  obtain ⟨hend, a₀, hbefore, hnone, -, hread⟩ := (parse_given_iff hspells' hgiven').mp h
  refine (parse_given_iff hspells hgiven).mpr ⟨hend, a₀, hbefore, hnone, hle, ?_⟩
  rcases leaves_read o after _ _ hread with ⟨hnone', -⟩ | ⟨-, hother⟩
  · rw [given?_give] at hnone'
    cases hnone'
  · rw [← o.give_give n m a₀]
    exact hother n

/-- It may be given between arguments that are read without it. -/
theorem parse_of_without (hend : "--" ∉ before) (hbefore : parse before = .ok a₀)
    (h : parse (before ++ after) = .ok a) (hnone : o.given? a = none) (hle : n ≤ maxNat64) :
    parse (before ++ given ++ after) = .ok (o.give n a) := by
  have hread : Progress.read ⟨a₀, none⟩ after = .ok a := by
    rw [parse, Progress.read_append hend] at h
    obtain ⟨p, hp, h⟩ := bind_eq_ok_iff.mp h
    have happend := Progress.read_append hend .start []
    rw [List.append_nil, hp] at happend
    rw [← h]
    exact (Progress.read_of_settle (happend.symm.trans hbefore) after).symm
  rcases leaves_read o after _ _ hread with ⟨-, hsome⟩ | ⟨hsame, hother⟩
  · exact absurd hnone hsome
  · exact (parse_given_iff hspells hgiven).mpr
      ⟨hend, a₀, hbefore, hsame.symm.trans hnone, hle, hother n⟩

end

end CountOption

end CorpusAnnotator.CommandLine
