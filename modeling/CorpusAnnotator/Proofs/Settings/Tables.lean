import CorpusAnnotator.Proofs.Settings.Paths

/-! What a path leads to in a table of settings, before and after a value is set. Setting a value at
a path leaves all paths alone that lie beside it; laying a table over another replaces what both of
them hold and keeps the rest. -/
namespace CorpusAnnotator.Settings

open Entries (lookup_cons_eq_ite lookup_eq_none_iff lookup_put mem_put nodup_put)

variable {name : String} {path beside : List String} {v root : Value}
  {entries incoming : List (String × Value)}

namespace Value

/-- What a path leads to. -/
def find? : List String → Value → Option Value
  | [], v => some v
  | name :: path, v => (v.entries.lookup name).bind (find? path)

/-- Whether setting the value means laying it over what is there. -/
def isTable : Value → Bool
  | .table _ => true
  | _ => false

theorem find?_nothing (h : path ≠ []) : find? path .nothing = none := by
  cases path with
  | nil => exact absurd rfl h
  | cons name path => rfl

theorem ofText_isTable (s : String) : (ofText s).isTable = false := by
  simp only [ofText]
  split
  · rfl
  · split
    · rfl
    · split
      · rfl
      · split <;> rfl

end Value

/-! ## Entries -/

/-- No name stands twice, and all are plain. -/
structure Neat (entries : List (String × Value)) : Prop where
  distinct : (entries.map Prod.fst).Nodup
  plain : ∀ n ∈ entries.map Prod.fst, Plain n

theorem Neat.nil : Neat [] := ⟨List.nodup_nil, nofun⟩

theorem Neat.put (h : Neat entries) (hname : Plain name) (v : Value) :
    Neat (Entries.put name v entries) where
  distinct := nodup_put h.distinct name v
  plain n hn := by
    obtain ⟨e, he, rfl⟩ := List.mem_map.mp hn
    rcases mem_put he with rfl | he
    · exact hname
    · exact h.plain e.1 (List.mem_map_of_mem he)

/-! ## Setting a value at a path -/

/-- Set the value that a path leads to; what is no table becomes one on the way. -/
def setAt (v : Value) : List String → Value → Value
  | [], _ => v
  | name :: path, root =>
    .table (Entries.put name (setAt v path ((root.entries.lookup name).getD .nothing)) root.entries)

theorem setName_of_plain (hname : Plain name) (hv : v.isTable = false) (root : Value) :
    setName name v root = .table (Entries.put name v root.entries) := by
  cases v with
  | table => cases hv
  | _ => rw [setName, hname.small_eq]; all_goals nofun

theorem change_child (f : Value → Value) (hname : Plain name) (steps : List Step) (root : Value) :
    change f (.child name :: steps) root = .table (Entries.put name
      (change f steps ((root.entries.lookup name).getD .nothing)) root.entries) := by
  rw [change, hname.small_eq]

theorem change_eq_setAt (h : ∀ n ∈ path ++ [name], Plain n) (hv : v.isTable = false)
    (root : Value) :
    change (setStep v (.child name)) (path.map .child) root = setAt v (path ++ [name]) root := by
  induction path generalizing root with
  | nil => exact setName_of_plain (h name List.mem_cons_self) hv root
  | cons n path ih =>
    obtain ⟨hn, hpath⟩ := List.forall_mem_cons.mp h
    rw [List.map_cons, change_child _ hn, ih hpath]
    rfl

/-- Setting the value of a key of plain names is setting what their path leads to. -/
theorem setKey_keyOf (h : ∀ n ∈ path, Plain n) (hne : path ≠ []) (hv : v.isTable = false)
    (root : Value) : setKey (keyOf path) v root = setAt v path root := by
  obtain ⟨first, rest, rfl⟩ := List.exists_cons_of_ne_nil hne
  rw [setKey, read?_keyOf h]
  show KeyPath.set ⟨first, rest.map .child⟩ v root = _
  rcases List.eq_nil_or_concat rest with rfl | ⟨init, last, rfl⟩
  · exact setName_of_plain (h first List.mem_cons_self) hv root
  · rw [List.concat_eq_append] at h ⊢
    have hset : KeyPath.set ⟨first, (init ++ [last]).map .child⟩ v root =
        change (setStep v (.child last)) ((first :: init).map .child) root := by
      simp [KeyPath.set]
    rw [hset, change_eq_setAt h hv]
    rfl

theorem find?_setAt_self (v : Value) (path : List String) (root : Value) :
    (setAt v path root).find? path = some v := by
  induction path generalizing root with
  | nil => rfl
  | cons name path ih =>
    show ((Entries.put name _ root.entries).lookup name).bind _ = _
    rw [lookup_put, if_pos rfl]
    exact ih _

/-- What lies beside a path is left alone. -/
theorem find?_setAt_beside (h : ¬ path <+: beside) (h' : ¬ beside <+: path) (v root : Value) :
    (setAt v path root).find? beside = root.find? beside := by
  induction path generalizing beside root with
  | nil => exact absurd (List.nil_prefix) h
  | cons name path ih =>
    cases beside with
    | nil => exact absurd (List.nil_prefix) h'
    | cons other beside =>
      show ((Entries.put name _ root.entries).lookup other).bind _ =
        (root.entries.lookup other).bind _
      rw [lookup_put]
      by_cases hother : other = name
      · subst hother
        rw [List.cons_prefix_cons, and_iff_right rfl] at h h'
        rw [if_pos rfl, Option.bind_some, ih h h']
        cases root.entries.lookup other with
        | some w => rfl
        | none => exact Value.find?_nothing fun hnil => h' (hnil ▸ List.nil_prefix)
      · rw [if_neg hother]

/-! ## Laying tables over one another -/

/-- A value laid over what is there: a table is laid over it name by name, any other replaces it. -/
def laidOver : Value → Option Value → Value
  | .table incoming, there => setNames incoming (there.getD (.table []))
  | v, _ => v

theorem laidOver_of_not_table (h : v.isTable = false) (there : Option Value) :
    laidOver v there = v := by
  cases v with
  | table => cases h
  | _ => rfl

theorem setName_eq (hname : Plain name) (v root : Value) :
    setName name v root =
      .table (Entries.put name (laidOver v (root.entries.lookup name)) root.entries) := by
  cases hv : v.isTable with
  | false => rw [setName_of_plain hname hv, laidOver_of_not_table hv]
  | true =>
    cases v with
    | table incoming =>
      rw [setName, hname.small_eq]
      rfl
    | _ => cases hv

theorem setKey_of_plain (hname : Plain name) (v root : Value) :
    setKey name v root = setName name v root := by
  have hread : KeyPath.read? (keyOf [name]) = some ⟨name, []⟩ := read?_keyOf (by simpa using hname)
  rw [keyOf, spelled, String.ofList_toList] at hread
  rw [setKey, hread]
  rfl

theorem setNames_cons (name : String) (v : Value) (incoming : List (String × Value))
    (root : Value) :
    setNames ((name, v) :: incoming) root = setNames incoming (setName name v root) := by
  rw [setNames]

/-- A table laid over another gives a table, which is in order if both are. -/
theorem exists_setNames_eq (hin : ∀ n ∈ incoming.map Prod.fst, Plain n) (h : Neat entries) :
    ∃ entries', setNames incoming (.table entries) = .table entries' ∧ Neat entries' := by
  induction incoming generalizing entries with
  | nil => exact ⟨entries, by rw [setNames], h⟩
  | cons e incoming ih =>
    obtain ⟨hname, hin⟩ := List.forall_mem_cons.mp hin
    rw [setNames_cons, setName_eq hname]
    exact ih hin (h.put hname _)

/-- What the upper table does not hold is left as it is. -/
theorem lookup_setNames_of_none (hin : ∀ n ∈ incoming.map Prod.fst, Plain n)
    (h : incoming.lookup name = none) (root : Value) :
    (setNames incoming root).entries.lookup name = root.entries.lookup name := by
  induction incoming generalizing root with
  | nil => rw [setNames]
  | cons e incoming ih =>
    obtain ⟨hname, hin⟩ := List.forall_mem_cons.mp hin
    rw [lookup_eq_none_iff, List.map_cons, List.mem_cons, not_or] at h
    rw [setNames_cons, ih hin (lookup_eq_none_iff.mpr h.2), setName_eq hname]
    exact (lookup_put _ _ _ _).trans (if_neg h.1)

/-- What it holds, and is no table, replaces what was there. -/
theorem lookup_setNames_of_some (hin : Neat incoming) (h : incoming.lookup name = some v)
    (hv : v.isTable = false) (root : Value) :
    (setNames incoming root).entries.lookup name = some v := by
  induction incoming generalizing root with
  | nil => cases h
  | cons e incoming ih =>
    obtain ⟨hname, hplain⟩ := List.forall_mem_cons.mp hin.plain
    obtain ⟨hnew, hdistinct⟩ := List.nodup_cons.mp hin.distinct
    rw [lookup_cons_eq_ite] at h
    rw [setNames_cons]
    by_cases hn : name = e.1
    · rw [if_pos hn] at h
      cases h
      rw [lookup_setNames_of_none hplain (lookup_eq_none_iff.mpr (hn ▸ hnew)), setName_eq hname,
        laidOver_of_not_table hv]
      exact (lookup_put _ _ _ _).trans (if_pos hn)
    · rw [if_neg hn] at h
      exact ih ⟨hdistinct, hplain⟩ h _

theorem find?_laidOver_table (hin : Neat incoming)
    (h : ∀ w, incoming.lookup name = some w → w.isTable = false) (there : Option Value) :
    (laidOver (.table incoming) there).find? [name] =
      (incoming.lookup name).or (there.bind (Value.find? [name])) := by
  show ((setNames incoming (there.getD (.table []))).entries.lookup name).bind some = _
  rw [Option.bind_fun_some]
  cases hname : incoming.lookup name with
  | some w => rw [lookup_setNames_of_some hin hname (h w hname), Option.some_or]
  | none =>
    rw [lookup_setNames_of_none hin.plain hname, Option.none_or]
    cases there with
    | none => rfl
    | some there => exact (Option.bind_fun_some _).symm

end CorpusAnnotator.Settings
