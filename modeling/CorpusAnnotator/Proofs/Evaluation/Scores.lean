import CorpusAnnotator.Evaluation.Scores

/-! Scores stand in the order of their names, each name once, and of several scores put in under one
name the last stays. -/
namespace CorpusAnnotator.Evaluation

open Entries (lookup_cons_eq_ite lookup_of_mem mem_of_lookup)
open Number (Binary64)

/-- Entries in increasing order of their names. -/
def Sorted (entries : List (String × Binary64)) : Prop :=
  entries.Pairwise fun e e' => e.1 < e'.1

namespace Sorted

variable {entries : List (String × Binary64)} {name : String} {score : Binary64}

theorem nodup (h : Sorted entries) : (entries.map Prod.fst).Nodup :=
  List.pairwise_map.mpr (h.imp fun hlt => Std.ne_of_lt hlt)

theorem mem_putEntry {e : String × Binary64} (h : e ∈ Scores.putEntry name score entries) :
    e = (name, score) ∨ e ∈ entries := by
  induction entries with
  | nil => exact .inl (List.mem_singleton.mp h)
  | cons entry rest ih =>
    obtain ⟨n, s⟩ := entry
    unfold Scores.putEntry at h
    split at h
    · rcases List.mem_cons.mp h with rfl | h
      · exact .inl rfl
      · exact .inr (List.mem_cons_of_mem _ h)
    · split at h
      · exact List.mem_cons.mp h
      · rcases List.mem_cons.mp h with rfl | h
        · exact .inr List.mem_cons_self
        · exact (ih h).imp_right (List.mem_cons_of_mem _)

theorem putEntry (h : Sorted entries) (name : String) (score : Binary64) :
    Sorted (Scores.putEntry name score entries) := by
  induction entries with
  | nil => exact List.pairwise_singleton _ _
  | cons entry rest ih =>
    obtain ⟨n, s⟩ := entry
    obtain ⟨hfirst, hrest⟩ := List.pairwise_cons.mp h
    unfold Scores.putEntry
    split
    · next hname =>
      subst hname
      exact List.pairwise_cons.mpr ⟨hfirst, hrest⟩
    · next hne =>
      split
      · next hlt =>
        -- what is less than the first name is less than all
        refine List.pairwise_cons.mpr ⟨fun e he => ?_, h⟩
        rcases List.mem_cons.mp he with rfl | he
        · exact hlt
        · exact String.lt_trans hlt (hfirst e he)
      · next hnlt =>
        have hlt : n < name := Std.lt_of_le_of_ne (String.not_lt.mp hnlt) (Ne.symm hne)
        refine List.pairwise_cons.mpr ⟨fun e he => ?_, ih hrest⟩
        rcases mem_putEntry he with rfl | he
        · exact hlt
        · exact hfirst e he

/-- An entry is there exactly if its name is looked up to its score. -/
theorem mem_iff (h : Sorted entries) : (name, score) ∈ entries ↔ entries.lookup name = some score :=
  ⟨lookup_of_mem h.nodup, mem_of_lookup⟩

end Sorted

namespace Scores

theorem sorted_foldl_put (entries : List (String × Binary64)) {s : Scores} (h : Sorted s.entries) :
    Sorted (entries.foldl (fun s e => s.put e.1 e.2) s).entries := by
  induction entries generalizing s with
  | nil => exact h
  | cons e entries ih => exact ih (h.putEntry e.1 e.2)

theorem get?_foldl_put (entries : List (String × Binary64)) (s : Scores) (name : String) :
    (entries.foldl (fun s e => s.put e.1 e.2) s).get? name =
      (entries.reverse.lookup name).or (s.get? name) := by
  induction entries generalizing s with
  | nil => rfl
  | cons e entries ih =>
    rw [List.foldl_cons, ih, get?_put, List.reverse_cons, List.lookup_append, Option.or_assoc,
      lookup_cons_eq_ite]
    by_cases h : name = e.1
    · rw [if_pos h, if_pos h, Option.some_or]
    · rw [if_neg h, if_neg h, List.lookup_nil, Option.none_or]

theorem sorted_ofList (entries : List (String × Binary64)) : Sorted (ofList entries).entries :=
  sorted_foldl_put entries List.Pairwise.nil

/-- The last entry of a name is its score. -/
theorem get?_ofList (entries : List (String × Binary64)) (name : String) :
    (ofList entries).get? name = entries.reverse.lookup name :=
  (get?_foldl_put entries empty name).trans Option.or_none

end Scores

end CorpusAnnotator.Evaluation
