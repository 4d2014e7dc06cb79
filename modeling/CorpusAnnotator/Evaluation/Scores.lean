import CorpusAnnotator.Entries
import CorpusAnnotator.Number.Binary64

/-! Scores: numbers by name, in increasing order of the names, one for each name. -/
namespace CorpusAnnotator.Evaluation

open Entries (lookup_cons_eq_ite)
open Number (Binary64)

structure Scores where
  entries : List (String × Binary64)
  deriving Repr, DecidableEq

namespace Scores

def empty : Scores := ⟨[]⟩

/-- Entries with one more, which replaces the one of its name if there is one. -/
def putEntry (name : String) (score : Binary64) :
    List (String × Binary64) → List (String × Binary64)
  | [] => [(name, score)]
  | (n, s) :: rest =>
    if name = n then (name, score) :: rest
    else if name < n then (name, score) :: (n, s) :: rest
    else (n, s) :: putEntry name score rest

def put (s : Scores) (name : String) (score : Binary64) : Scores :=
  ⟨putEntry name score s.entries⟩

/-- The score of a name. -/
def get? (s : Scores) (name : String) : Option Binary64 :=
  s.entries.lookup name

/-- Named scores put in one after another, so that the last of a name stays. -/
def ofList (entries : List (String × Binary64)) : Scores :=
  entries.foldl (fun s (name, score) => s.put name score) empty

theorem lookup_putEntry (name other : String) (score : Binary64)
    (entries : List (String × Binary64)) :
    (putEntry name score entries).lookup other =
      if other = name then some score else entries.lookup other := by
  induction entries with
  | nil => rw [putEntry, lookup_cons_eq_ite]
  | cons entry rest ih =>
    obtain ⟨n, s⟩ := entry
    unfold putEntry
    split
    · next h => subst h; simp only [lookup_cons_eq_ite]; split <;> rfl
    · next h =>
      split
      · rw [lookup_cons_eq_ite]
      · rw [lookup_cons_eq_ite, lookup_cons_eq_ite, ih]
        by_cases hn : other = n
        · simp [hn, Ne.symm h]
        · simp [hn]

@[simp] theorem get?_put (s : Scores) (name other : String) (score : Binary64) :
    (s.put name score).get? other = if other = name then some score else s.get? other :=
  lookup_putEntry name other score s.entries

end Scores

end CorpusAnnotator.Evaluation
