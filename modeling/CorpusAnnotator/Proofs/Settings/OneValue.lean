import CorpusAnnotator.Proofs.Settings.Tables

/-! Tables of settings that differ in one value. Whatever is set beside this value afterwards, they
differ in nothing else. -/
namespace CorpusAnnotator.Settings

open Entries (lookup_put)

variable {path beside : List String} {root root' v v' : Value}

/-- Two values that are tables as far as a path leads and the same beside it. What it leads to is
there in both. -/
def SameBut : List String → Value → Value → Prop
  | [], _, _ => True
  | name :: path, root, root' => ∃ entries entries', root = .table entries ∧
    root' = .table entries' ∧ (∀ other ≠ name, entries.lookup other = entries'.lookup other) ∧
    ∃ v v', entries.lookup name = some v ∧ entries'.lookup name = some v' ∧ SameBut path v v'

theorem sameBut_setAt (v v' : Value) (path : List String) (root : Value) :
    SameBut path (setAt v path root) (setAt v' path root) := by
  induction path generalizing root with
  | nil => trivial
  | cons name path ih =>
    refine ⟨_, _, rfl, rfl, fun other hother => ?_, _, _, (lookup_put ..).trans (if_pos rfl),
      (lookup_put ..).trans (if_pos rfl), ih _⟩
    rw [lookup_put, lookup_put, if_neg hother, if_neg hother]

/-- Setting the same value beside the path leaves no other difference. -/
theorem SameBut.setAt (h : SameBut path root root') (hleads : ¬ path <+: beside)
    (hback : ¬ beside <+: path) (v : Value) :
    SameBut path (setAt v beside root) (setAt v beside root') := by
  induction path generalizing beside root root' with
  | nil => exact absurd List.nil_prefix hleads
  | cons name path ih =>
    cases beside with
    | nil => exact absurd List.nil_prefix hback
    | cons first beside =>
      obtain ⟨entries, entries', rfl, rfl, hothers, w, w', hw, hw', hinner⟩ := h
      by_cases hfirst : first = name
      · subst hfirst
        rw [List.cons_prefix_cons, and_iff_right rfl] at hleads hback
        refine ⟨_, _, rfl, rfl, fun other hother => ?_, _, _, (lookup_put ..).trans (if_pos rfl),
          (lookup_put ..).trans (if_pos rfl), ?_⟩
        · rw [lookup_put, lookup_put, if_neg hother, if_neg hother]
          exact hothers other hother
        · show SameBut path (setAt v beside ((entries.lookup first).getD .nothing))
            (setAt v beside ((entries'.lookup first).getD .nothing))
          rw [hw, hw']
          exact ih hinner hleads hback
      · have hthere : (Value.table entries).entries.lookup first =
            (Value.table entries').entries.lookup first := hothers first hfirst
        refine ⟨_, _, rfl, rfl, fun other hother => ?_, w, w', ?_, ?_, hinner⟩
        · rw [lookup_put, lookup_put, hthere]
          split
          · rfl
          · exact hothers other hother
        · exact (lookup_put ..).trans ((if_neg (Ne.symm hfirst)).trans hw)
        · exact (lookup_put ..).trans ((if_neg (Ne.symm hfirst)).trans hw')

end CorpusAnnotator.Settings
