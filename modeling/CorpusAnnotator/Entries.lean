/-! Lists of named items in the order in which the names came up. -/
namespace CorpusAnnotator.Entries

variable {α : Type} {entries : List (String × α)} {name other : String} {a : α}

/-- Replace the item of a name, or add it at the end. -/
def put (name : String) (a : α) (entries : List (String × α)) : List (String × α) :=
  if (entries.lookup name).isSome then
    entries.map fun (n, b) => if n = name then (n, a) else (n, b)
  else entries ++ [(name, a)]

theorem lookup_cons_eq_ite (key name : String) (a : α) (rest : List (String × α)) :
    ((name, a) :: rest).lookup key = if key = name then some a else rest.lookup key := by
  by_cases h : key = name
  · simp [h]
  · rw [List.lookup_cons, beq_eq_false_iff_ne.mpr h, if_neg h]

theorem lookup_eq_none_iff : entries.lookup name = none ↔ name ∉ entries.map Prod.fst := by
  rw [List.lookup_eq_none_iff, List.mem_map]
  constructor
  · rintro h ⟨e, he, rfl⟩
    exact absurd (h e he) (by simp)
  · intro h e he
    simpa using fun hname => h ⟨e, he, hname.symm⟩

theorem mem_of_lookup (h : entries.lookup name = some a) : (name, a) ∈ entries := by
  obtain ⟨before, after, rfl, -⟩ := List.lookup_eq_some_iff.mp h
  exact List.mem_append_right before List.mem_cons_self

theorem lookup_of_mem (hnodup : (entries.map Prod.fst).Nodup) (h : (name, a) ∈ entries) :
    entries.lookup name = some a := by
  induction entries with
  | nil => cases h
  | cons e entries ih =>
    obtain ⟨hnew, hnodup⟩ := List.nodup_cons.mp hnodup
    rw [lookup_cons_eq_ite]
    rcases List.mem_cons.mp h with rfl | h
    · exact if_pos rfl
    · have hmem : name ∈ entries.map Prod.fst := List.mem_map.mpr ⟨_, h, rfl⟩
      have hne : name ≠ e.1 := fun hname => hnew (hname ▸ hmem)
      rw [if_neg hne, ih hnodup h]

theorem lookup_map_replace (name other : String) (a : α) (entries : List (String × α)) :
    (entries.map fun (n, b) => if n = name then (n, a) else (n, b)).lookup other =
      if other = name then (entries.lookup name).map fun _ => a else entries.lookup other := by
  induction entries with
  | nil => simp
  | cons e entries ih =>
    obtain ⟨n, b⟩ := e
    rw [List.map_cons, lookup_cons_eq_ite, lookup_cons_eq_ite]
    by_cases hn : n = name
    · subst hn
      by_cases h : other = n <;> simp [lookup_cons_eq_ite, h, ih]
    · by_cases h : other = n
      · subst h
        simp [hn]
      · simp [lookup_cons_eq_ite, hn, Ne.symm hn, h, ih]

/-- After an item is put under a name, just that stands there, and all else as before. -/
theorem lookup_put (name other : String) (a : α) (entries : List (String × α)) :
    (put name a entries).lookup other = if other = name then some a else entries.lookup other := by
  unfold put
  cases hlookup : entries.lookup name with
  | some b =>
    rw [Option.isSome_some, if_pos rfl, lookup_map_replace, hlookup]
    rfl
  | none =>
    rw [Option.isSome_none, if_neg Bool.false_ne_true, List.lookup_append]
    by_cases h : other = name
    · subst h
      simp [hlookup]
    · simp [lookup_cons_eq_ite, h]

theorem mem_put {e : String × α} (h : e ∈ put name a entries) : e = (name, a) ∨ e ∈ entries := by
  unfold put at h
  split at h
  · obtain ⟨⟨n, b⟩, hmem, rfl⟩ := List.mem_map.mp h
    by_cases hn : n = name
    · simp [hn]
    · exact .inr (by simpa [hn] using hmem)
  · rcases List.mem_append.mp h with h | h
    · exact .inr h
    · exact .inl (List.mem_singleton.mp h)

/-- No name comes to stand twice. -/
theorem nodup_put (h : (entries.map Prod.fst).Nodup) (name : String) (a : α) :
    ((put name a entries).map Prod.fst).Nodup := by
  unfold put
  cases hlookup : entries.lookup name with
  | some b =>
    have hnames : (entries.map fun (n, b) => if n = name then (n, a) else (n, b)).map Prod.fst =
        entries.map Prod.fst := by
      rw [List.map_map]
      refine List.map_congr_left fun e _ => ?_
      show (if e.1 = name then (e.1, a) else (e.1, e.2)).1 = e.1
      split <;> rfl
    rw [Option.isSome_some, if_pos rfl, hnames]
    exact h
  | none =>
    have hnew := lookup_eq_none_iff.mp hlookup
    rw [Option.isSome_none, if_neg Bool.false_ne_true, List.map_append, List.nodup_append]
    refine ⟨h, List.pairwise_singleton _ name, fun n hn m hm => ?_⟩
    obtain rfl := List.mem_singleton.mp hm
    rintro rfl
    exact hnew hn

/-- An item in the middle is found by its name alone. -/
theorem lookup_append_cons {before after : List (String × α)}
    (h : ((before ++ (name, a) :: after).map Prod.fst).Nodup) (other : String) :
    (before ++ (name, a) :: after).lookup other =
      if other = name then some a else (before ++ after).lookup other := by
  rw [List.lookup_append, List.lookup_append, lookup_cons_eq_ite]
  by_cases hother : other = name
  · subst hother
    rw [List.map_append, List.map_cons, List.nodup_append] at h
    have hnone : before.lookup other = none :=
      lookup_eq_none_iff.mpr fun hmem => h.2.2 other hmem other List.mem_cons_self rfl
    rw [hnone, if_pos rfl, if_pos rfl]
    rfl
  · rw [if_neg hother, if_neg hother]

/-! ## Items that may be missing -/

/-- The items that are there. -/
def present (options : List (String × Option α)) : List (String × α) :=
  options.filterMap fun (name, item) => item.map fun a => (name, a)

theorem map_fst_present_sublist (options : List (String × Option α)) :
    ((present options).map Prod.fst).Sublist (options.map Prod.fst) := by
  induction options with
  | nil => exact .slnil
  | cons e options ih =>
    obtain ⟨name, item⟩ := e
    cases item with
    | none => exact ih.cons name
    | some a => exact ih.cons_cons name

theorem lookup_present {options : List (String × Option α)} (h : (options.map Prod.fst).Nodup)
    (name : String) : (present options).lookup name = (options.lookup name).join := by
  induction options with
  | nil => rfl
  | cons e options ih =>
    obtain ⟨n, item⟩ := e
    obtain ⟨hnew, hnodup⟩ := List.nodup_cons.mp h
    rw [lookup_cons_eq_ite]
    cases item with
    | some a =>
      show ((n, a) :: present options).lookup name = _
      rw [lookup_cons_eq_ite, ih hnodup]
      split <;> rfl
    | none =>
      show (present options).lookup name = _
      rw [ih hnodup]
      by_cases hn : name = n
      · rw [if_pos hn, lookup_eq_none_iff.mpr (hn ▸ hnew)]
        rfl
      · rw [if_neg hn]

end CorpusAnnotator.Entries
