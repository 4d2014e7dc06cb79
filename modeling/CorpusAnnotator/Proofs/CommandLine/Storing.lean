import CorpusAnnotator.CommandLine
import CorpusAnnotator.Proofs.Number.Integer
import CorpusAnnotator.Proofs.Results
import Mathlib.Logic.Function.Basic

/-! What the options of a command line store. Each has a place of its own among the arguments and is
stored there once, so that a list of them comes to the same in any order. -/
namespace CorpusAnnotator.CommandLine

open Number (SpellsNat maxNat64)
open Results

def Valued.name : Valued → String
  | .config => "config"
  | .input => "input"
  | .commons => "commons"
  | .corpus => "corpus"
  | .gold => "gold"
  | .output => "output"
  | .threads => "threads"
  | .batchSize => "batch_size"
  | .evaluator => "evaluator"
  | .operatorLibrary => "op_library"
  | .summary => "summary"

def Switch.name : Switch → String
  | .evaluate => "eval"
  | .strict => "strict_eval"
  | .help => "help"
  | .version => "version"

def Flag.name : Flag → String
  | .valued o => o.name
  | .switch s => s.name

/-- Whether the value of an option is a count. -/
def Valued.takesCount : Valued → Bool
  | .threads | .batchSize => true
  | _ => false

/-- What an option leaves in its place. -/
inductive Datum where
  | text (s : String)
  | count (n : Nat)
  | on
  deriving Repr, DecidableEq

/-- What stands in the place of an option. -/
def Arguments.datum (a : Arguments) : Flag → Option Datum
  | .valued .config => a.config.map .text
  | .valued .input => a.overrides.input.map .text
  | .valued .commons => a.overrides.commons.map .text
  | .valued .corpus => a.overrides.corpus.map .text
  | .valued .gold => a.overrides.gold.map .text
  | .valued .output => a.overrides.output.map .text
  | .valued .threads => a.overrides.threads.map .count
  | .valued .batchSize => a.overrides.batchSize.map .count
  | .valued .evaluator => a.overrides.evaluator.map .text
  | .valued .operatorLibrary => a.overrides.operatorLibrary.map .text
  | .valued .summary => a.overrides.summary.map .text
  | .switch .evaluate => if a.overrides.evaluate then some .on else none
  | .switch .strict => if a.overrides.strict then some .on else none
  | .switch .help => none
  | .switch .version => none

/-- An option as it is used: which, and with what value. -/
structure Use where
  flag : Flag
  value : Option String
  deriving Repr, DecidableEq

/-- The uses that mean something to a run, and what they mean: any text is a value, apart from the
counts and from a configuration file without a name. -/
inductive Use.Means : Use → Datum → Prop
  | text {o : Valued} {s : String} (ho : o.takesCount = false) (hs : o = .config → s ≠ "") :
      Means ⟨.valued o, some s⟩ (.text s)
  | count {o : Valued} {s : String} {n : Nat} (ho : o.takesCount = true)
      (hs : SpellsNat n s.toList) (hn : n ≤ maxNat64) : Means ⟨.valued o, some s⟩ (.count n)
  | on {s : Switch} (hs : s = .evaluate ∨ s = .strict) : Means ⟨.switch s, none⟩ .on

/-- A use that means something. -/
def Use.Valid (u : Use) : Prop := ∃ d, u.Means d

/-- Store an option as it is used. -/
def Use.store (u : Use) (a : Arguments) : Except Refusal Arguments :=
  match u with
  | ⟨.valued o, some value⟩ => o.store value a
  | ⟨.valued _, none⟩ => .error .missingValue
  | ⟨.switch s, none⟩ => s.store a
  | ⟨.switch _, some _⟩ => .error .unwantedValue

/-- Store one option after the other. -/
def storeAll (us : List Use) (a : Arguments) : Except Refusal Arguments :=
  us.foldlM (fun a u => u.store a) a

variable {a a' : Arguments} {u : Use} {us vs : List Use} {f : Flag} {d d' : Datum}

/-! ## One option -/

theorem Arguments.datum_empty (f : Flag) : Arguments.empty.datum f = none := by
  rcases f with o | s
  · cases o <;> rfl
  · cases s <;> rfl

/-- Arguments are what they say. -/
theorem Arguments.datum_injective : Function.Injective Arguments.datum := by
  intro a b h
  have htext {s t : Option String} (h : s.map Datum.text = t.map .text) : s = t :=
    Option.map_injective (fun _ _ => Datum.text.inj) h
  have hcount {n m : Option Nat} (h : n.map Datum.count = m.map .count) : n = m :=
    Option.map_injective (fun _ _ => Datum.count.inj) h
  have hon {x y : Bool} (h : (if x then some Datum.on else none) = if y then some .on else none) :
      x = y := by
    cases x <;> cases y <;> first | rfl | cases h
  cases a
  cases b
  simp only [Arguments.mk.injEq]
  exact ⟨htext (congrFun h (.valued .config)), htext (congrFun h (.valued .input)),
    htext (congrFun h (.valued .commons)), htext (congrFun h (.valued .corpus)),
    htext (congrFun h (.valued .gold)), htext (congrFun h (.valued .output)),
    hcount (congrFun h (.valued .threads)), hcount (congrFun h (.valued .batchSize)),
    hon (congrFun h (.switch .evaluate)), hon (congrFun h (.switch .strict)),
    htext (congrFun h (.valued .evaluator)), htext (congrFun h (.valued .operatorLibrary)),
    htext (congrFun h (.valued .summary))⟩

theorem Use.Means.unique (h : u.Means d) (h' : u.Means d') : d = d' := by
  cases h with
  | text ho =>
    cases h' with
    | text => rfl
    | count ho' => rw [ho] at ho'; cases ho'
  | count ho hs =>
    cases h' with
    | text ho' => rw [ho] at ho'; cases ho'
    | count _ hs' => rw [hs.unique hs']
  | on => cases h'; rfl

theorem once_eq_ok_iff {before after : Option String} {text : String} :
    once before text = .ok after ↔ before = none ∧ after = some text := by
  cases before <;> simp [once, eq_comm]

theorem onceCount_eq_ok_iff {before after : Option Nat} {text : String} :
    onceCount before text = .ok after ↔
      before = none ∧ ∃ n, SpellsNat n text.toList ∧ n ≤ maxNat64 ∧ after = some n := by
  cases before with
  | some n => simp [onceCount]
  | none =>
    have hspells (n : Nat) : SpellsNat n text.toList ∧ n ≤ maxNat64 ↔
        Number.readNat64 text.toList = .ok n := Number.readNat_eq_ok_iff.symm
    simp only [onceCount, ← and_assoc, hspells]
    cases Number.readNat64 text.toList <;> simp [eq_comm]

theorem Flag.funext {α : Type} {g h : Flag → α} (hvalued : ∀ o, g (.valued o) = h (.valued o))
    (hswitch : ∀ s, g (.switch s) = h (.switch s)) : g = h := by
  funext f
  cases f with
  | valued o => exact hvalued o
  | switch s => exact hswitch s

/-- What is stored for an option with a value stands in its place, and nothing else changes. -/
theorem Valued.of_store {o : Valued} {value : String} (h : o.store value a = .ok a') :
    a.datum (.valued o) = none ∧ ∃ d, Use.Means ⟨.valued o, some value⟩ d ∧
      a'.datum = Function.update a.datum (.valued o) (some d) := by
  cases o with
  | config =>
    obtain ⟨config, hconfig, h⟩ := bind_eq_ok_iff.mp h
    obtain ⟨hnone, rfl⟩ := once_eq_ok_iff.mp hconfig
    split at h
    · cases h
    · next hvalue =>
      cases h
      exact ⟨Option.map_eq_none_iff.mpr hnone, _, .text rfl fun _ => by simpa using hvalue,
        Flag.funext (fun o => by cases o <;> rfl) fun s => by cases s <;> rfl⟩
  | threads | batchSize =>
    obtain ⟨count, hcount, h⟩ := bind_eq_ok_iff.mp h
    obtain ⟨hnone, n, hs, hn, rfl⟩ := onceCount_eq_ok_iff.mp hcount
    cases h
    exact ⟨Option.map_eq_none_iff.mpr hnone, _, .count rfl hs hn,
      Flag.funext (fun o => by cases o <;> rfl) fun s => by cases s <;> rfl⟩
  | _ =>
    obtain ⟨text, htext, h⟩ := bind_eq_ok_iff.mp h
    obtain ⟨hnone, rfl⟩ := once_eq_ok_iff.mp htext
    cases h
    exact ⟨Option.map_eq_none_iff.mpr hnone, _, .text rfl nofun,
      Flag.funext (fun o => by cases o <;> rfl) fun s => by cases s <;> rfl⟩

theorem Valued.exists_store {o : Valued} {value : String} (hnone : a.datum (.valued o) = none)
    (hd : Use.Means ⟨.valued o, some value⟩ d) : ∃ a', o.store value a = .ok a' := by
  have honce {before : Option String} {kind : String → Datum} (h : before.map kind = none) :
      once before value = .ok (some value) :=
    once_eq_ok_iff.mpr ⟨Option.map_eq_none_iff.mp h, rfl⟩
  cases o with
  | config =>
    cases hd with
    | text _ hs =>
      exact ⟨_, bind_eq_ok_iff.mpr ⟨_, honce hnone, if_neg (by simpa using hs rfl)⟩⟩
    | count ho => cases ho
  | threads | batchSize =>
    cases hd with
    | text ho => cases ho
    | count _ hs hn =>
      exact ⟨_, bind_eq_ok_iff.mpr ⟨_, onceCount_eq_ok_iff.mpr
        ⟨Option.map_eq_none_iff.mp hnone, _, hs, hn, rfl⟩, rfl⟩⟩
  | _ => exact ⟨_, bind_eq_ok_iff.mpr ⟨_, honce hnone, rfl⟩⟩

theorem Switch.of_store {s : Switch} (h : s.store a = .ok a') :
    a.datum (.switch s) = none ∧ ∃ d, Use.Means ⟨.switch s, none⟩ d ∧
      a'.datum = Function.update a.datum (.switch s) (some d) := by
  cases s with
  | evaluate | strict =>
    simp only [Switch.store] at h
    split at h
    · cases h
    · next hoff =>
      cases h
      exact ⟨if_neg hoff, .on, .on (by simp),
        Flag.funext (fun o => by cases o <;> rfl) fun s => by cases s <;> rfl⟩
  | help | version => cases h

theorem Switch.exists_store {s : Switch} (hnone : a.datum (.switch s) = none)
    (hd : Use.Means ⟨.switch s, none⟩ d) : ∃ a', s.store a = .ok a' := by
  cases hd with
  | on hs =>
    rcases hs with rfl | rfl <;>
    · simp only [Arguments.datum, ite_eq_right_iff, reduceCtorEq, imp_false] at hnone
      exact ⟨_, if_neg hnone⟩

theorem Use.exists_store (hnone : a.datum u.flag = none) (hvalid : u.Valid) :
    ∃ a', u.store a = .ok a' := by
  obtain ⟨d, hd⟩ := hvalid
  cases hd with
  | text ho hs => exact Valued.exists_store hnone (.text ho hs)
  | count ho hs hn => exact Valued.exists_store hnone (.count ho hs hn)
  | on hs => exact Switch.exists_store hnone (.on hs)

/-- An option that is stored means something, and is there beside what there was. -/
theorem Use.of_store (h : u.store a = .ok a') : a.datum u.flag = none ∧ u.Valid ∧
    ∀ f d, a'.datum f = some d ↔ a.datum f = some d ∨ u.flag = f ∧ u.Means d := by
  have hupdate : a.datum u.flag = none ∧
      ∃ d, u.Means d ∧ a'.datum = Function.update a.datum u.flag (some d) := by
    obtain ⟨o | s, - | value⟩ := u
    · cases h
    · exact Valued.of_store h
    · exact Switch.of_store h
    · cases h
  obtain ⟨hnone, d, hd, ha'⟩ := hupdate
  refine ⟨hnone, ⟨d, hd⟩, fun f d' => ?_⟩
  rw [ha']
  by_cases hf : f = u.flag
  · subst hf
    rw [Function.update_self, hnone, Option.some_inj]
    exact ⟨fun hdd => .inr ⟨rfl, hdd ▸ hd⟩, fun hd' => hd.unique (hd'.resolve_left nofun).2⟩
  · rw [Function.update_of_ne hf]
    exact ⟨.inl, fun hd' => hd'.resolve_right fun hu => hf hu.1.symm⟩

/-! ## One option after the other -/

theorem storeAll_cons (u : Use) (us : List Use) (a : Arguments) :
    storeAll (u :: us) a = u.store a >>= storeAll us := rfl

theorem storeAll_append (us vs : List Use) (a : Arguments) :
    storeAll (us ++ vs) a = storeAll us a >>= storeAll vs :=
  List.foldlM_append

/-- What is stored is there beside what there was, and was not there before. -/
theorem of_storeAll (h : storeAll us a = .ok a') : (∀ u ∈ us, a.datum u.flag = none) ∧
    ∀ f d, a'.datum f = some d ↔ a.datum f = some d ∨ ∃ u ∈ us, u.flag = f ∧ u.Means d := by
  induction us generalizing a with
  | nil =>
    cases h
    simp
  | cons u us ih =>
    rw [storeAll_cons] at h
    obtain ⟨b, hstore, hrest⟩ := bind_eq_ok_iff.mp h
    obtain ⟨hnone, -, hb⟩ := Use.of_store hstore
    obtain ⟨hnew, ha'⟩ := ih hrest
    refine ⟨List.forall_mem_cons.mpr ⟨hnone, fun v hv => ?_⟩, fun f d => ?_⟩
    · refine Option.eq_none_iff_forall_ne_some.mpr fun d hd => ?_
      have hsome := (hb v.flag d).mpr (.inl hd)
      rw [hnew v hv] at hsome
      cases hsome
    · simp only [ha', hb, or_assoc, List.mem_cons, exists_eq_or_imp]

theorem exists_storeAll (hdistinct : (us.map Use.flag).Nodup) (hvalid : ∀ u ∈ us, u.Valid)
    (hnone : ∀ u ∈ us, a.datum u.flag = none) : ∃ a', storeAll us a = .ok a' := by
  induction us generalizing a with
  | nil => exact ⟨a, rfl⟩
  | cons u us ih =>
    obtain ⟨hnew, hdistinct⟩ := List.nodup_cons.mp hdistinct
    obtain ⟨b, hstore⟩ :=
      Use.exists_store (hnone u List.mem_cons_self) (hvalid u List.mem_cons_self)
    have hb : ∀ v ∈ us, b.datum v.flag = none := by
      intro v hv
      refine Option.eq_none_iff_forall_ne_some.mpr fun d hd => ?_
      rcases ((Use.of_store hstore).2.2 v.flag d).mp hd with hd | ⟨hflag, -⟩
      · rw [hnone v (List.mem_cons_of_mem u hv)] at hd
        cases hd
      · exact hnew (hflag ▸ List.mem_map_of_mem hv)
    obtain ⟨a', hrest⟩ := ih hdistinct (fun v hv => hvalid v (List.mem_cons_of_mem u hv)) hb
    exact ⟨a', bind_eq_ok_iff.mpr ⟨b, hstore, hrest⟩⟩

end CorpusAnnotator.CommandLine
