import CorpusAnnotator.Archive.Reader
import CorpusAnnotator.Proofs.Results
import Mathlib.Data.List.Basic

/-! The entries that are left when those of equal names have become one: each name keeps the place
where it is listed first and the entry that is listed last. And what it takes to get the content of
an entry. -/
namespace CorpusAnnotator.Archive

open Results

variable {es : List Entry} {e k : Entry} {name : String} {bytes : List UInt8}

/-! ## Equal names -/

/-- The last entry of a name. -/
def lastNamed? (es : List Entry) (name : String) : Option Entry :=
  es.reverse.find? fun e => e.name = name

/-- The names of entries, each where it comes first. -/
def namesOf (es : List Entry) : List String := (es.map Entry.name).eraseDups

theorem lastNamed?_concat (es : List Entry) (e : Entry) (name : String) :
    lastNamed? (es ++ [e]) name = if e.name = name then some e else lastNamed? es name := by
  rw [lastNamed?, List.reverse_append, List.reverse_singleton, List.singleton_append,
    List.find?_cons]
  by_cases he : e.name = name
  · rw [decide_eq_true he, if_pos he]
  · rw [decide_eq_false he, if_neg he]
    rfl

theorem name_of_lastNamed? (h : lastNamed? es name = some e) : e ∈ es ∧ e.name = name := by
  have hname := List.find?_some h
  exact ⟨List.mem_reverse.mp (List.mem_of_find?_eq_some h), of_decide_eq_true hname⟩

theorem exists_lastNamed? (h : name ∈ es.map Entry.name) : ∃ e, lastNamed? es name = some e := by
  obtain ⟨e, he, hname⟩ := List.mem_map.mp h
  rw [← Option.isSome_iff_exists, lastNamed?, List.find?_isSome]
  exact ⟨e, List.mem_reverse.mpr he, decide_eq_true hname⟩

theorem mem_namesOf : name ∈ namesOf es ↔ name ∈ es.map Entry.name :=
  List.mem_eraseDups

theorem namesOf_concat (es : List Entry) (e : Entry) :
    namesOf (es ++ [e]) =
      if e.name ∈ es.map Entry.name then namesOf es else namesOf es ++ [e.name] := by
  rw [namesOf, List.map_append, List.eraseDups_append, List.map_singleton, List.cons_removeAll]
  by_cases he : e.name ∈ es.map Entry.name
  · rw [if_pos he, if_neg (by simpa using he)]
    exact List.append_nil _
  · rw [if_neg he, if_pos (by simpa using he)]
    rfl

/-- What is kept of entries. -/
def lastOfEach (es : List Entry) : List Entry := (namesOf es).filterMap (lastNamed? es)

theorem mem_lastOfEach (h : e ∈ lastOfEach es) : e ∈ es := by
  obtain ⟨name, -, hlast⟩ := List.mem_filterMap.mp h
  exact (name_of_lastNamed? hlast).1

/-- No name is lost. -/
theorem exists_mem_lastOfEach (h : name ∈ es.map Entry.name) :
    ∃ e ∈ lastOfEach es, e.name = name := by
  obtain ⟨e, he⟩ := exists_lastNamed? h
  exact ⟨e, List.mem_filterMap.mpr ⟨name, mem_namesOf.mpr h, he⟩, (name_of_lastNamed? he).2⟩

theorem add_lastOfEach (es : List Entry) (e : Entry) :
    distinct.add (lastOfEach es) e = lastOfEach (es ++ [e]) := by
  have hany : ((lastOfEach es).any fun k => k.name = e.name) =
      decide (e.name ∈ es.map Entry.name) := by
    rw [Bool.eq_iff_iff, List.any_eq_true, decide_eq_true_eq]
    constructor
    · rintro ⟨k, hk, hname⟩
      exact of_decide_eq_true hname ▸ List.mem_map_of_mem (mem_lastOfEach hk)
    · intro he
      obtain ⟨k, hk, hname⟩ := exists_mem_lastOfEach he
      exact ⟨k, hk, decide_eq_true hname⟩
  rw [distinct.add, hany, lastOfEach, lastOfEach, namesOf_concat]
  by_cases he : e.name ∈ es.map Entry.name
  · rw [if_pos (decide_eq_true he), if_pos he, List.map_filterMap]
    refine List.filterMap_congr fun name hname => ?_
    obtain ⟨k, hk⟩ := exists_lastNamed? (mem_namesOf.mp hname)
    rw [lastNamed?_concat, hk, Option.map_some, (name_of_lastNamed? hk).2]
    by_cases heq : e.name = name
    · rw [if_pos heq, if_pos heq.symm]
    · rw [if_neg heq, if_neg (Ne.symm heq)]
  · have hsame : (namesOf es).filterMap (lastNamed? (es ++ [e])) =
        (namesOf es).filterMap (lastNamed? es) := by
      refine List.filterMap_congr fun name hname => ?_
      have hne : e.name ≠ name := fun heq => he (heq ▸ mem_namesOf.mp hname)
      rw [lastNamed?_concat, if_neg hne]
    rw [if_neg (by simpa using he), if_neg he, List.filterMap_append, hsame, List.filterMap_cons,
      lastNamed?_concat, if_pos rfl]
    rfl

theorem foldl_add_lastOfEach (seen es : List Entry) :
    es.foldl distinct.add (lastOfEach seen) = lastOfEach (seen ++ es) := by
  induction es generalizing seen with
  | nil => rw [List.append_nil]; rfl
  | cons e es ih =>
    rw [List.foldl_cons, add_lastOfEach, ih, List.append_assoc]
    rfl

/-- Going through the entries once, each in the place of those of its name, keeps the last of each
name. -/
theorem distinct_eq_lastOfEach (es : List Entry) : distinct es = lastOfEach es :=
  foldl_add_lastOfEach [] es

/-! ## Content -/

/-- An entry that lies in the open and is packed in a known way: stored or deflated. -/
structure Entry.Opens (e : Entry) : Prop where
  clear : e.encrypted = false
  known : e.method = 0 ∨ e.method = 8

/-- The bytes that are packed in an entry. -/
def Entry.unpacked? (e : Entry) : Option (List UInt8) :=
  if e.method = 8 then Inflate.inflate? e.data else some e.data

/-- An entry of which bytes can be had: it opens, and the bytes packed in it have its checksum. -/
structure Entry.Holds (e : Entry) (bytes : List UInt8) : Prop extends e.Opens where
  packed : e.unpacked? = some bytes
  checksum : (Checksum.crc32 bytes).toNat = e.checksum

theorem Entry.open_eq_ok_iff : e.open = .ok () ↔ e.Opens := by
  unfold Entry.open
  constructor
  · intro h
    split at h
    · cases h
    · next hclear =>
      split at h
      · cases h
      · next hknown => exact ⟨by simpa using hclear, by omega⟩
  · rintro ⟨hclear, hknown⟩
    rw [if_neg (by simp [hclear]), if_neg (by omega)]

theorem Entry.content_eq_ok_iff :
    e.content = .ok bytes ↔
      e.unpacked? = some bytes ∧ (Checksum.crc32 bytes).toNat = e.checksum := by
  have hchecked : ∀ unpacked : List UInt8,
      (if (Checksum.crc32 unpacked).toNat = e.checksum then pure unpacked
        else throw .badChecksum : Except EntryError (List UInt8)) = .ok bytes ↔
      some unpacked = some bytes ∧ (Checksum.crc32 bytes).toNat = e.checksum := by
    intro unpacked
    rw [Option.some.injEq]
    split
    · next hsum =>
      rw [pure_eq_ok, Except.ok.injEq]
      exact ⟨fun heq => ⟨heq, heq ▸ hsum⟩, And.left⟩
    · next hsum =>
      constructor
      · intro hthrow
        cases hthrow
      · rintro ⟨rfl, hbytes⟩
        exact absurd hbytes hsum
  unfold Entry.content Entry.unpacked?
  by_cases hdeflated : e.method = 8
  · rw [if_pos hdeflated, if_pos hdeflated]
    cases Inflate.inflate? e.data with
    | some unpacked => exact hchecked unpacked
    | none =>
      constructor
      · intro hthrow
        cases hthrow
      · rintro ⟨hnone, -⟩
        cases hnone
  · rw [if_neg hdeflated, if_neg hdeflated]
    exact hchecked e.data

theorem Entry.holds_iff : e.Holds bytes ↔ e.open = .ok () ∧ e.content = .ok bytes := by
  rw [open_eq_ok_iff, content_eq_ok_iff]
  exact ⟨fun h => ⟨h.toOpens, h.packed, h.checksum⟩, fun h => ⟨h.1, h.2.1, h.2.2⟩⟩

end CorpusAnnotator.Archive
