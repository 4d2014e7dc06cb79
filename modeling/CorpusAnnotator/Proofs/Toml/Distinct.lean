import CorpusAnnotator.Toml.Document

/-! No name stands twice in a table of a document: each statement keeps the tables so that are under
construction, and an inline table is built in the same way. -/
namespace CorpusAnnotator.Toml

open Entries (mem_of_lookup mem_put nodup_put)
open Text (Taken)

variable {t t' : Table} {i : Item} {v : Value} {name : String} {text : List Char}

/-- A value that is a table has no name twice. -/
def Value.Distinct (v : Value) : Prop :=
  ∀ entries, v = .table entries → (entries.map Prod.fst).Nodup

/-- No table below an item has a name twice. -/
inductive Item.Distinct : Item → Prop where
  | value {v : Value} : v.Distinct → Distinct (.value v)
  | table {origin : Origin} {entries : List (String × Item)} : (entries.map Prod.fst).Nodup →
      (∀ e ∈ entries, Distinct e.2) → Distinct (.table origin entries)
  | tables {elements : List (List (String × Item))} :
      (∀ entries ∈ elements, (entries.map Prod.fst).Nodup) →
      (∀ entries ∈ elements, ∀ e ∈ entries, Distinct e.2) → Distinct (.tables elements)

/-- No table at or below a table under construction has a name twice. -/
structure Table.Distinct (t : Table) : Prop where
  names : (t.entries.map Prod.fst).Nodup
  items : ∀ e ∈ t.entries, e.2.Distinct

namespace Table

theorem Distinct.empty (origin : Origin) : Distinct ⟨origin, []⟩ := ⟨List.nodup_nil, nofun⟩

theorem Distinct.toItem (h : t.Distinct) : (Item.table t.origin t.entries).Distinct :=
  .table h.names h.items

theorem Distinct.put (h : t.Distinct) (hi : i.Distinct) (name : String) :
    (t.put name i).Distinct where
  names := nodup_put h.names name i
  items e he := by
    rcases mem_put he with rfl | he
    · exact hi
    · exact h.items e he

theorem Distinct.find? (h : t.Distinct) (hi : t.find? name = some i) : i.Distinct :=
  h.items (name, i) (mem_of_lookup hi)

/-- One more table after others, none of which has a name twice. -/
theorem Distinct.toTables (h : t.Distinct) (elements : List (List (String × Item)))
    (hnames : ∀ entries ∈ elements, (entries.map Prod.fst).Nodup)
    (hitems : ∀ entries ∈ elements, ∀ e ∈ entries, e.2.Distinct) :
    (Item.tables (elements ++ [t.entries])).Distinct := by
  refine .tables (fun entries he => ?_) (fun entries he => ?_) <;>
    rcases List.mem_append.mp he with he | he
  · exact hnames entries he
  · exact List.mem_singleton.mp he ▸ h.names
  · exact hitems entries he
  · exact List.mem_singleton.mp he ▸ h.items

/-- A change somewhere in a table keeps it distinct if the change itself does. -/
theorem Distinct.change {f : Table → Option Table}
    (hf : ∀ {t t'}, f t = some t' → t.Distinct → t'.Distinct) {dottedKey : Bool}
    {path : List String} (ht' : t.change dottedKey f path = some t') (h : t.Distinct) :
    t'.Distinct := by
  induction path generalizing t t' with
  | nil => exact hf ht' h
  | cons name path ih =>
    unfold Table.change at ht'
    cases hfind : t.find? name with
    | none =>
      rw [hfind] at ht'
      obtain ⟨s, hs, rfl⟩ := Option.map_eq_some_iff.mp ht'
      exact h.put (ih hs (.empty _)).toItem name
    | some item =>
      have hitem := h.find? hfind
      rw [hfind] at ht'
      cases hitem with
      | value _ => cases ht'
      | table hnames hitems =>
        simp only at ht'
        split at ht'
        · cases ht'
        · obtain ⟨s, hs, rfl⟩ := Option.map_eq_some_iff.mp ht'
          exact h.put (ih hs ⟨hnames, hitems⟩).toItem name
      | @tables elements hnames hitems =>
        simp only at ht'
        split at ht'
        · cases ht'
        · next last hlast =>
          obtain ⟨s, hs, rfl⟩ := Option.map_eq_some_iff.mp ht'
          have hmem : last ∈ elements := List.mem_of_getLast? hlast
          have hlast := ih hs ⟨hnames last hmem, hitems last hmem⟩
          have hfront : ∀ entries ∈ elements.dropLast, entries ∈ elements :=
            fun entries he => (List.dropLast_sublist elements).subset he
          exact h.put (hlast.toTables _ (fun entries he => hnames entries (hfront entries he))
            (fun entries he => hitems entries (hfront entries he))) name

theorem Distinct.add {path : List String} {last : String}
    (ht' : t.add path last v = some t') (h : t.Distinct) (hv : v.Distinct) : t'.Distinct := by
  refine Distinct.change (fun hassign ht => ?_) ht' h
  unfold assign at hassign
  split at hassign
  · cases hassign
  · split at hassign
    · cases hassign
    · cases hassign
      exact ht.put (.value hv) last

theorem Distinct.openTable (ht' : t.openTable name = some t') (h : t.Distinct) : t'.Distinct := by
  unfold Table.openTable at ht'
  split at ht'
  · cases ht'
    exact h.put (Distinct.empty .headed).toItem name
  · next hfind =>
    cases ht'
    cases h.find? hfind with
    | table hnames hitems => exact h.put (.table hnames hitems) name
  · cases ht'

theorem Distinct.openElement (ht' : t.openElement name = some t') (h : t.Distinct) :
    t'.Distinct := by
  unfold Table.openElement at ht'
  split at ht'
  · cases ht'
    exact h.put ((Distinct.empty .headed).toTables [] nofun nofun) name
  · next hfind =>
    cases ht'
    cases h.find? hfind with
    | tables hnames hitems => exact h.put ((Distinct.empty .headed).toTables _ hnames hitems) name
  · cases ht'

end Table

/-! ## Values -/

theorem map_fst_toEntries (entries : List (String × Item)) :
    (Item.toEntries entries).map Prod.fst = entries.map Prod.fst := by
  induction entries with
  | nil => rfl
  | cons e entries ih =>
    rw [Item.toEntries, List.map_cons, List.map_cons, ih]

theorem Item.Distinct.toValue (h : i.Distinct) : i.toValue.Distinct := by
  intro entries hentries
  cases h with
  | value hv =>
    rw [Item.toValue] at hentries
    exact hv entries hentries
  | table hnames hitems =>
    rw [Item.toValue] at hentries
    cases hentries
    rw [map_fst_toEntries]
    exact hnames
  | tables =>
    rw [Item.toValue] at hentries
    cases hentries

/-- Whatever is added, the names of the table itself stay distinct. -/
theorem Table.nodup_add {path : List String} {last : String} (ht' : t.add path last v = some t')
    (h : (t.entries.map Prod.fst).Nodup) : (t'.entries.map Prod.fst).Nodup := by
  unfold Table.add at ht'
  cases path with
  | nil =>
    rw [Table.change, assign] at ht'
    split at ht'
    · cases ht'
    · split at ht'
      · cases ht'
      · cases ht'
        exact nodup_put h _ _
  | cons name path =>
    unfold Table.change at ht'
    split at ht'
    · obtain ⟨s, -, rfl⟩ := Option.map_eq_some_iff.mp ht'
      exact nodup_put h _ _
    · cases ht'
    · split at ht'
      · cases ht'
      · obtain ⟨s, -, rfl⟩ := Option.map_eq_some_iff.mp ht'
        exact nodup_put h _ _
    · split at ht'
      · cases ht'
      · obtain ⟨s, -, rfl⟩ := Option.map_eq_some_iff.mp ht'
        exact nodup_put h _ _

theorem nodup_foldlM_add {pairs : List (Key × Value)}
    (ht' : pairs.foldlM (fun (t : Table) pair => t.add pair.1.path pair.1.last pair.2) t = some t')
    (h : (t.entries.map Prod.fst).Nodup) : (t'.entries.map Prod.fst).Nodup := by
  induction pairs generalizing t with
  | nil =>
    cases ht'
    exact h
  | cons pair pairs ih =>
    rw [List.foldlM_cons] at ht'
    obtain ⟨s, hs, hmore⟩ := Option.bind_eq_some_iff.mp ht'
    exact ih hmore (Table.nodup_add hs h)

theorem distinct_of_inlineTable? {pairs : List (Key × Value)} (h : inlineTable? pairs = some v) :
    v.Distinct := by
  obtain ⟨t, ht, rfl⟩ := Option.map_eq_some_iff.mp h
  intro entries hentries
  cases hentries
  rw [map_fst_toEntries]
  exact nodup_foldlM_add ht List.nodup_nil

theorem distinct_of_scalar? (h : scalar? text = some v) : v.Distinct := by
  rintro entries rfl
  unfold scalar? at h
  split at h
  · cases h
  · split at h
    · cases h
    · split at h
      · cases h
      · split at h
        · cases h
        · obtain ⟨n, -, hn⟩ := Option.map_eq_some_iff.mp h
          cases hn

theorem distinct_of_word? {t : Taken Value text} (h : word? text = some t) :
    t.value.Distinct := by
  unfold word? at h
  split at h
  · cases h
  · split at h
    · dsimp only at h
      split at h
      · obtain ⟨shown, -, rfl⟩ := Option.map_eq_some_iff.mp h
        intro entries hentries
        cases hentries
      · obtain ⟨v, hv, rfl⟩ := Option.map_eq_some_iff.mp h
        exact distinct_of_scalar? hv
    · cases h

theorem distinct_of_value? {depth : Nat} {t : Taken Value text} (h : value? depth text = some t) :
    t.value.Distinct := by
  unfold value? at h
  split at h
  · cases h
  · split at h
    · obtain ⟨t, -, rfl⟩ := Option.map_eq_some_iff.mp h
      intro entries hentries
      cases hentries
    · split at h
      · split at h
        · cases h
        · obtain ⟨t, -, rfl⟩ := Option.map_eq_some_iff.mp h
          intro entries hentries
          cases hentries
      · split at h
        · split at h
          · cases h
          · dsimp only [Option.bind_eq_bind] at h
            -- whether pairs are read or there are none, the table is built of them in one way
            split at h
            all_goals
              obtain ⟨pairs, -, h⟩ := Option.bind_eq_some_iff.mp h
              obtain ⟨table, htable, hreturn⟩ := Option.bind_eq_some_iff.mp h
              cases hreturn
              exact distinct_of_inlineTable? htable
        · exact distinct_of_word? h

/-! ## Documents -/

/-- A statement assigns no table that has a name twice. -/
def Statement.Distinct : Statement → Prop
  | .assign _ v => v.Distinct
  | .heading _ => True
  | .element _ => True

theorem distinct_of_heading? {t : Taken Statement text} (h : heading? text = some t) :
    t.value.Distinct := by
  unfold heading? at h
  split at h
  · simp only [Option.bind_eq_bind, Option.bind_eq_some_iff] at h
    obtain ⟨key, -, _, -, _, -, _, -, hreturn⟩ := h
    cases hreturn
    trivial
  · simp only [Option.bind_eq_bind, Option.bind_eq_some_iff] at h
    obtain ⟨key, -, _, -, _, -, hreturn⟩ := h
    cases hreturn
    trivial
  · cases h

theorem distinct_of_assignment? {t : Taken Statement text} (h : assignment? text = some t) :
    t.value.Distinct := by
  simp only [assignment?, Option.bind_eq_bind, Option.bind_eq_some_iff] at h
  obtain ⟨key, -, _, -, v, hv, _, -, hreturn⟩ := h
  cases hreturn
  exact distinct_of_value? hv

theorem distinct_of_statements? {statements : List Statement}
    (h : statements? text = some statements) : ∀ s ∈ statements, s.Distinct := by
  fun_induction statements? text generalizing statements with
  | case1 =>
    cases h
    exact nofun
  | case2 => cases h
  | case3 =>
    rename_i ih
    exact ih h
  | case4 => cases h
  | case5 =>
    rename_i hread _ _ ih
    obtain ⟨more, hmore, rfl⟩ := Option.map_eq_some_iff.mp h
    refine List.forall_mem_cons.mpr ⟨?_, ih hmore⟩
    split at hread
    · exact distinct_of_heading? hread
    · exact distinct_of_assignment? hread

theorem Table.Distinct.draft {d d' : Draft} {s : Statement} (hd : d.add s = some d')
    (hs : s.Distinct) (h : d.root.Distinct) : d'.root.Distinct := by
  cases s with
  | assign key v =>
    obtain ⟨root, hroot, rfl⟩ := Option.map_eq_some_iff.mp hd
    exact Table.Distinct.change (fun hadd ht => ht.add hadd hs) hroot h
  | heading key =>
    obtain ⟨root, hroot, rfl⟩ := Option.map_eq_some_iff.mp hd
    exact Table.Distinct.change (fun hopen ht => ht.openTable hopen) hroot h
  | element key =>
    obtain ⟨root, hroot, rfl⟩ := Option.map_eq_some_iff.mp hd
    exact Table.Distinct.change (fun hopen ht => ht.openElement hopen) hroot h

theorem Table.Distinct.foldlM_draft {statements : List Statement} {d d' : Draft}
    (hd : statements.foldlM Draft.add d = some d') (hs : ∀ s ∈ statements, s.Distinct)
    (h : d.root.Distinct) : d'.root.Distinct := by
  induction statements generalizing d with
  | nil =>
    cases hd
    exact h
  | cons s statements ih =>
    obtain ⟨hs, hstatements⟩ := List.forall_mem_cons.mp hs
    rw [List.foldlM_cons] at hd
    obtain ⟨next, hnext, hmore⟩ := Option.bind_eq_some_iff.mp hd
    exact ih hmore hstatements (h.draft hnext hs)

theorem mem_toEntries {e : String × Value} {entries : List (String × Item)}
    (h : e ∈ Item.toEntries entries) : ∃ i, (e.1, i) ∈ entries ∧ e.2 = i.toValue := by
  induction entries with
  | nil => cases h
  | cons entry entries ih =>
    rw [Item.toEntries] at h
    rcases List.mem_cons.mp h with rfl | h
    · exact ⟨entry.2, List.mem_cons_self, rfl⟩
    · obtain ⟨i, hi, hvalue⟩ := ih h
      exact ⟨i, List.mem_cons_of_mem entry hi, hvalue⟩

/-- No name stands twice in a document, nor in a table that is the value of one of its names. -/
theorem distinct_of_document? {entries : List (String × Value)}
    (h : document? text = some entries) :
    (entries.map Prod.fst).Nodup ∧ ∀ e ∈ entries, e.2.Distinct := by
  simp only [document?, Option.bind_eq_bind, Option.bind_eq_some_iff] at h
  obtain ⟨statements, hstatements, d, hd, hreturn⟩ := h
  cases hreturn
  have hroot :=
    Table.Distinct.foldlM_draft hd (distinct_of_statements? hstatements) (.empty .headed)
  refine ⟨(map_fst_toEntries _).symm ▸ hroot.names, fun e he => ?_⟩
  obtain ⟨i, hi, hvalue⟩ := mem_toEntries he
  rw [hvalue]
  exact (hroot.items _ hi).toValue

end CorpusAnnotator.Toml
