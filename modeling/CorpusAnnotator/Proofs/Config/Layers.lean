import CorpusAnnotator.Proofs.Config.Keys

/-! What layers of settings come to. A layer changes the settings that it names and no others,
whatever else stands in it, so each setting has the value of the highest layer that names it. -/
namespace CorpusAnnotator.Config

open Entries (lookup_cons_eq_ite lookup_eq_none_iff lookup_put)
open Settings

variable {root v : Value} {path : List String} {name : String} {layer : Layer} {k k' : Key}

/-! ## The paths of settings -/

/-- The key of a setting as a text. -/
def Key.key (k : Key) : String := keyOf k.names

theorem Key.plain (k : Key) : ∀ n ∈ k.names, Plain n := by
  cases k <;> decide

theorem Key.not_prefix (h : k ≠ k') : ¬ k.names <+: k'.names := by
  have hall : ∀ k ∈ Key.all, ∀ k' ∈ Key.all, k ≠ k' → ¬ k.names <+: k'.names := by decide
  exact hall k k.mem_all k' k'.mem_all h

/-- A setting stands in one of the tables, or is the summary. -/
theorem Key.names_eq (k : Key) :
    k.names = ["summary"] ∨ ∃ s ∈ sections, ∃ key, k.names = [s, key] := by
  cases k <;> simp [names, sections]

/-- Each of the tables has a setting that has to be there. -/
theorem exists_required {s : String} (h : s ∈ sections) :
    ∃ k : Key, k.isOptional = false ∧ ∃ key, k.names = [s, key] := by
  simp only [sections, List.mem_cons, List.not_mem_nil, or_false] at h
  rcases h with rfl | rfl | rfl | rfl
  · exact ⟨.input, rfl, _, rfl⟩
  · exact ⟨.path, rfl, _, rfl⟩
  · exact ⟨.enabled, rfl, _, rfl⟩
  · exact ⟨.level, rfl, _, rfl⟩

/-- A path of plain names that is that of a setting, or leads to none and passes none. -/
structure Separate (path : List String) : Prop where
  plain : ∀ n ∈ path, Plain n
  beside : ∀ k : Key, path = k.names ∨ ¬ path <+: k.names ∧ ¬ k.names <+: path

theorem Key.separate (k : Key) : Separate k.names where
  plain := k.plain
  beside k' := by
    by_cases h : k = k'
    · exact .inl (h ▸ rfl)
    · exact .inr ⟨Key.not_prefix h, Key.not_prefix (Ne.symm h)⟩

theorem Separate.ne_nil (h : Separate path) : path ≠ [] := by
  rintro rfl
  rcases h.beside .summary with hnames | ⟨hleads, -⟩
  · cases hnames
  · exact hleads List.nil_prefix

theorem Separate.ne_section (h : Separate path) {s : String} (hs : s ∈ sections) : path ≠ [s] := by
  rintro rfl
  obtain ⟨k, -, key, hk⟩ := exists_required hs
  rcases h.beside k with hnames | ⟨hleads, -⟩
  · rw [hk] at hnames
    cases hnames
  · exact hleads (hk ▸ ⟨[key], rfl⟩)

theorem Separate.find?_setAt (h : Separate path) (v root : Value) (k : Key) :
    (setAt v path root).find? k.names = if path = k.names then some v else root.find? k.names := by
  by_cases hk : path = k.names
  · rw [if_pos hk, ← hk]
    exact find?_setAt_self v path root
  · rw [if_neg hk]
    obtain ⟨hleads, hback⟩ := (h.beside k).resolve_left hk
    exact find?_setAt_beside hleads hback v root

/-! ## Tables in order -/

/-- A table of settings in order: names are plain and distinct, and tables stand where they have to
and not in the place of a setting. -/
structure Orderly (root : Value) : Prop where
  neat : Neat root.entries
  tables : ∀ s ∈ sections, ∀ v, root.entries.lookup s = some v →
    ∃ inner, v = .table inner ∧ Neat inner
  single : ∀ k : Key, ∀ v, root.find? k.names = some v → v.isTable = false

theorem Orderly.empty : Orderly (.table []) where
  neat := .nil
  tables _ _ _ h := by cases h
  single k v h := by
    rcases k.names_eq with hk | ⟨s, -, key, hk⟩ <;> rw [hk] at h <;> cases h

/-- Setting a value keeps a table in order. -/
theorem Orderly.setAt (h : Orderly root) (hpath : Separate path) (hv : v.isTable = false) :
    Orderly (setAt v path root) := by
  obtain ⟨first, rest, rfl⟩ := List.exists_cons_of_ne_nil hpath.ne_nil
  obtain ⟨hfirst, hrest⟩ := List.forall_mem_cons.mp hpath.plain
  refine ⟨h.neat.put hfirst _, ?_, ?_⟩
  · intro s hs w hw
    have hlookup := (lookup_put first s _ root.entries).symm.trans hw
    by_cases hfirst : s = first
    · subst hfirst
      rw [if_pos rfl] at hlookup
      cases hlookup
      -- the path leads on, so that a table stands here
      cases rest with
      | nil => exact absurd rfl (hpath.ne_section hs)
      | cons next rest =>
        refine ⟨_, rfl, Neat.put ?_ (hrest next List.mem_cons_self) _⟩
        cases hthere : root.entries.lookup s with
        | none => exact .nil
        | some there =>
          obtain ⟨inner, rfl, hinner⟩ := h.tables s hs there hthere
          exact hinner
    · rw [if_neg hfirst] at hlookup
      exact h.tables s hs w hlookup
  · intro k w hw
    rw [hpath.find?_setAt] at hw
    split at hw
    · cases hw
      exact hv
    · exact h.single k w hw

/-! ## Layers of keys -/

/-- A layer whose keys are paths of single values, no two of them the same. -/
structure Dotted (layer : Layer) : Prop where
  distinct : (layer.map Prod.fst).Nodup
  keys : ∀ e ∈ layer, ∃ path, e.1 = keyOf path ∧ Separate path
  single : ∀ e ∈ layer, e.2.isTable = false

theorem over_cons (e : String × Value) (layer : Layer) (root : Value) :
    Layer.over (e :: layer) root = Layer.over layer (setKey e.1 e.2 root) := rfl

theorem Separate.key_eq_iff (h : Separate path) : k.key = keyOf path ↔ path = k.names := by
  constructor
  · intro hkey
    exact (keyOf_injective k.plain h.plain k.separate.ne_nil h.ne_nil hkey).symm
  · rintro rfl
    rfl

theorem Key.key_injective (h : k.key = k'.key) : k = k' := by
  by_cases hk : k = k'
  · exact hk
  · have hnames : k'.names = k.names := k'.separate.key_eq_iff.mp h
    exact absurd (hnames ▸ List.prefix_rfl) (Key.not_prefix hk)

theorem Dotted.over_cons {e : String × Value} (h : Dotted (e :: layer)) :
    ∃ path, e.1 = keyOf path ∧ Separate path ∧
      ∀ root, Layer.over (e :: layer) root = layer.over (setAt e.2 path root) := by
  obtain ⟨path, hkey, hpath⟩ := h.keys e List.mem_cons_self
  refine ⟨path, hkey, hpath, fun root => ?_⟩
  rw [Config.over_cons, hkey, setKey_keyOf hpath.plain hpath.ne_nil (h.single e List.mem_cons_self)]

theorem Dotted.sublist {layer' : Layer} (h : Dotted layer) (hsublist : layer'.Sublist layer) :
    Dotted layer' where
  distinct := (hsublist.map Prod.fst).nodup h.distinct
  keys e he := h.keys e (hsublist.subset he)
  single e he := h.single e (hsublist.subset he)

theorem Dotted.tail {e : String × Value} (h : Dotted (e :: layer)) : Dotted layer :=
  h.sublist (List.sublist_cons_self e layer)

/-- Such a layer changes the settings that it names, and leaves the others as they are. -/
theorem Dotted.find?_over (hlayer : Dotted layer) (root : Value) (k : Key) :
    (layer.over root).find? k.names = (layer.lookup k.key).or (root.find? k.names) := by
  induction layer generalizing root with
  | nil => rfl
  | cons e layer ih =>
    obtain ⟨hnew, -⟩ := List.nodup_cons.mp hlayer.distinct
    obtain ⟨path, hkey, hpath, hover⟩ := hlayer.over_cons
    rw [hover, ih hlayer.tail, hpath.find?_setAt, lookup_cons_eq_ite]
    by_cases hk : path = k.names
    · have heq : k.key = e.1 := (hpath.key_eq_iff.mpr hk).trans hkey.symm
      have hnone : layer.lookup k.key = none := lookup_eq_none_iff.mpr (heq ▸ hnew)
      rw [hnone, Option.none_or, if_pos hk, if_pos heq, Option.some_or]
    · have hne : k.key ≠ e.1 := fun heq => hk (hpath.key_eq_iff.mp (heq.trans hkey))
      rw [if_neg hk, if_neg hne]

/-- It keeps a table in order. -/
theorem Dotted.over (hlayer : Dotted layer) (h : Orderly root) : Orderly (layer.over root) := by
  induction layer generalizing root with
  | nil => exact h
  | cons e layer ih =>
    obtain ⟨path, -, hpath, hover⟩ := hlayer.over_cons
    rw [hover]
    exact ih hlayer.tail (h.setAt hpath (hlayer.single e List.mem_cons_self))

/-! ## Layers of tables -/

theorem find?_cons_table (name : String) (v : Value) (layer : Layer) (first : String)
    (path : List String) : (Value.table ((name, v) :: layer)).find? (first :: path) =
      if first = name then v.find? path else (Value.table layer).find? (first :: path) := by
  show (((name, v) :: layer).lookup first).bind _ = _
  rw [lookup_cons_eq_ite]
  split <;> rfl

/-- An entry laid over a table changes the settings that it holds, and leaves the others as they
are. -/
theorem Orderly.find?_setName (he : Orderly (.table [(name, v)])) (root : Value) (k : Key) :
    (setName name v root).find? k.names =
      ((Value.table [(name, v)]).find? k.names).or (root.find? k.names) := by
  have hname : Plain name := he.neat.plain name List.mem_cons_self
  have hsingle := he.single k
  rw [setName_eq hname]
  rcases k.names_eq with hk | ⟨s, hs, key, hk⟩ <;> rw [hk, find?_cons_table] at hsingle ⊢
  · show ((Entries.put name _ root.entries).lookup "summary").bind _ = _
    rw [lookup_put]
    by_cases hfirst : "summary" = name
    · rw [if_pos hfirst] at hsingle
      rw [if_pos hfirst, if_pos hfirst, laidOver_of_not_table (hsingle v rfl)]
      rfl
    · rw [if_neg hfirst, if_neg hfirst]
      rfl
  · show ((Entries.put name _ root.entries).lookup s).bind _ = _
    rw [lookup_put]
    by_cases hfirst : s = name
    · subst hfirst
      obtain ⟨inner, rfl, hneat⟩ := he.tables s hs v List.lookup_cons_self
      have hinner : (Value.table inner).find? [key] = inner.lookup key := Option.bind_fun_some _
      rw [if_pos rfl, hinner] at hsingle
      rw [if_pos rfl, if_pos rfl, hinner, Option.bind_some, find?_laidOver_table hneat hsingle]
      rfl
    · rw [if_neg hfirst, if_neg hfirst]
      rfl

/-- What is laid over a table in order leaves it so. -/
theorem Orderly.setName (he : Orderly (.table [(name, v)])) (h : Orderly root) :
    Orderly (setName name v root) := by
  have hname : Plain name := he.neat.plain name List.mem_cons_self
  refine ⟨?_, ?_, ?_⟩
  · rw [setName_eq hname]
    exact h.neat.put hname _
  · intro s hs w hw
    rw [setName_eq hname] at hw
    have hlookup := (lookup_put name s _ root.entries).symm.trans hw
    by_cases hfirst : s = name
    · subst hfirst
      obtain ⟨inner, rfl, hneat⟩ := he.tables s hs v List.lookup_cons_self
      rw [if_pos rfl] at hlookup
      cases hlookup
      cases hroot : root.entries.lookup s with
      | none => exact exists_setNames_eq hneat.plain .nil
      | some there =>
        obtain ⟨entries, rfl, hentries⟩ := h.tables s hs there hroot
        exact exists_setNames_eq hneat.plain hentries
    · rw [if_neg hfirst] at hlookup
      exact h.tables s hs w hlookup
  · intro k w hw
    rw [he.find?_setName] at hw
    rcases Option.or_eq_some_iff.mp hw with hw | ⟨-, hw⟩
    · exact he.single k w hw
    · exact h.single k w hw

/-- Of an entry and the table behind it, at most one holds a setting. -/
theorem find?_cons_eq (hnew : name ∉ layer.map Prod.fst) (k : Key) :
    (Value.table ((name, v) :: layer)).find? k.names =
        ((Value.table [(name, v)]).find? k.names).or ((Value.table layer).find? k.names) ∧
      ((Value.table [(name, v)]).find? k.names = none ∨
        (Value.table layer).find? k.names = none) := by
  obtain ⟨first, rest, hk⟩ := List.exists_cons_of_ne_nil k.separate.ne_nil
  rw [hk, find?_cons_table, find?_cons_table]
  by_cases hfirst : first = name
  · have hnone : (Value.table layer).find? (first :: rest) = none := by
      show (layer.lookup first).bind _ = none
      rw [lookup_eq_none_iff.mpr (hfirst ▸ hnew)]
      rfl
    rw [if_pos hfirst, if_pos hfirst, hnone, Option.or_none]
    exact ⟨rfl, .inr rfl⟩
  · rw [if_neg hfirst, if_neg hfirst]
    exact ⟨rfl, .inl rfl⟩

/-- A table in order is one entry in order and a table in order. -/
theorem Orderly.of_cons (h : Orderly (.table ((name, v) :: layer))) :
    Orderly (.table [(name, v)]) ∧ Orderly (.table layer) := by
  obtain ⟨hname, hplain⟩ := List.forall_mem_cons.mp h.neat.plain
  obtain ⟨hnew, hdistinct⟩ := List.nodup_cons.mp h.neat.distinct
  have hnone : layer.lookup name = none := lookup_eq_none_iff.mpr hnew
  constructor
  · refine ⟨⟨List.pairwise_singleton _ _, ?_⟩, ?_, ?_⟩
    · intro n hn
      exact List.mem_singleton.mp hn ▸ hname
    · intro s hs w hw
      refine h.tables s hs w ?_
      have hw := (lookup_cons_eq_ite s name v []).symm.trans hw
      split at hw
      · next hfirst => exact (lookup_cons_eq_ite s name v layer).trans ((if_pos hfirst).trans hw)
      · cases hw
    · intro k w hw
      refine h.single k w ?_
      rw [(find?_cons_eq hnew k).1, hw, Option.some_or]
  · refine ⟨⟨hdistinct, hplain⟩, ?_, ?_⟩
    · intro s hs w hw
      have hne : s ≠ name := by
        rintro rfl
        cases hnone.symm.trans hw
      exact h.tables s hs w ((lookup_cons_eq_ite s name v layer).trans ((if_neg hne).trans hw))
    · intro k w hw
      refine h.single k w ?_
      obtain ⟨hfind, hnone | hnone⟩ := find?_cons_eq (v := v) hnew k
      · rw [hfind, hnone, Option.none_or, hw]
      · cases hnone.symm.trans hw

/-- A table laid over another changes the settings that it holds, and leaves the others as they
are. -/
theorem Orderly.over (hlayer : Orderly (.table layer)) (h : Orderly root) :
    Orderly (layer.over root) ∧ ∀ k : Key, (layer.over root).find? k.names =
      ((Value.table layer).find? k.names).or (root.find? k.names) := by
  induction layer generalizing root with
  | nil =>
    refine ⟨h, fun k => ?_⟩
    obtain ⟨first, rest, hk⟩ := List.exists_cons_of_ne_nil k.separate.ne_nil
    rw [hk]
    rfl
  | cons e layer ih =>
    obtain ⟨name, v⟩ := e
    obtain ⟨he, hrest⟩ := hlayer.of_cons
    obtain ⟨hnew, -⟩ := List.nodup_cons.mp hlayer.neat.distinct
    obtain ⟨horderly, hfind⟩ := ih hrest (he.setName h)
    rw [over_cons, setKey_of_plain (he.neat.plain name List.mem_cons_self)]
    refine ⟨horderly, fun k => ?_⟩
    rw [hfind, he.find?_setName]
    obtain ⟨hcons, hnone | hnone⟩ := find?_cons_eq (v := v) hnew k
    · rw [hcons, hnone, Option.none_or, Option.none_or]
    · rw [hcons, hnone, Option.none_or, Option.or_none]

/-! ## All layers -/

theorem find?_entries (root : Value) (k : Key) :
    (Value.table root.entries).find? k.names = root.find? k.names := by
  rcases k.names_eq with hk | ⟨s, -, key, hk⟩ <;> rw [hk] <;> rfl

theorem find?_empty (k : Key) : (Value.table []).find? k.names = none := by
  rcases k.names_eq with hk | ⟨s, -, key, hk⟩ <;> rw [hk] <;> rfl

theorem Orderly.of_entries (h : Orderly root) : Orderly (.table root.entries) where
  neat := h.neat
  tables := h.tables
  single k v hv := h.single k v ((find?_entries root k).symm.trans hv)

/-- Where a table has all settings that have to be there, it has all the tables that they stand in. -/
theorem Orderly.exists_entries (h : Orderly root)
    (hrequired : ∀ k : Key, k.isOptional = false → root.find? k.names ≠ none) {s : String}
    (hs : s ∈ sections) : ∃ entries, root.entries.lookup s = some (.table entries) := by
  obtain ⟨k, hk, key, hnames⟩ := exists_required hs
  cases hlookup : root.entries.lookup s with
  | none =>
    have hnone : root.find? k.names = none := by rw [hnames, Value.find?, hlookup, Option.bind_none]
    exact absurd hnone (hrequired k hk)
  | some v =>
    obtain ⟨entries, rfl, -⟩ := h.tables s hs v hlookup
    exact ⟨entries, rfl⟩

/-- In the table of all layers, a setting has the value of the highest layer that names it. -/
theorem resolve_orderly {defaults file named overrides : Layer} (hdefaults : Dotted defaults)
    (hfile : Orderly (.table file)) (hnamed : Dotted named) (hoverrides : Dotted overrides) :
    Orderly (resolve defaults [file, named] overrides) ∧ ∀ k : Key,
      (resolve defaults [file, named] overrides).find? k.names = (overrides.lookup k.key).or
        ((named.lookup k.key).or (((Value.table file).find? k.names).or
          (defaults.lookup k.key))) := by
  obtain ⟨hread, hfindRead⟩ := hfile.over .empty
  obtain ⟨hlaid, hfindLaid⟩ := (hnamed.over hread).of_entries.over (hdefaults.over .empty)
  refine ⟨hoverrides.over hlaid, fun k => ?_⟩
  show (overrides.over (Layer.over (named.over (file.over (.table []))).entries
    (defaults.over (.table [])))).find? k.names = _
  rw [hoverrides.find?_over, hfindLaid, find?_entries, hnamed.find?_over, hfindRead,
    hdefaults.find?_over, find?_empty, Option.or_none, Option.or_none, Option.or_assoc]

end CorpusAnnotator.Config
