import CorpusAnnotator.Proofs.Config.Keys

/-! What the check of a configuration finds, and what loading has done before it: no empty text is
left where one is optional, so what the check finds to be there is not empty. -/
namespace CorpusAnnotator.Config

open Results

variable {c : Config}

/-- A configuration with all that a run needs. -/
structure Complete (c : Config) : Prop where
  input : c.model.input ≠ ""
  path : c.corpus.path ≠ ""
  threads : 1 ≤ c.model.threads
  batchSize : 1 ≤ c.corpus.batchSize
  compared : c.evaluation.enabled = true →
    (∃ output, c.corpus.output = some output) ∧ ∃ gold, c.evaluation.gold = some gold

/-- A configuration without empty texts where they are optional. -/
structure Cleared (c : Config) : Prop where
  operatorLibrary : c.model.operatorLibrary ≠ some ""
  output : c.corpus.output ≠ some ""
  gold : c.evaluation.gold ≠ some ""
  summary : c.summary ≠ some ""

theorem exists_evaluationPaths_iff :
    (∃ paths, c.evaluationPaths = .ok paths) ↔
      (∃ output, c.corpus.output = some output) ∧ ∃ gold, c.evaluation.gold = some gold := by
  unfold evaluationPaths
  cases c.corpus.output <;> cases c.evaluation.gold <;> simp

theorem validate_eq_ok_iff : c.validate = .ok () ↔ c.Complete := by
  unfold validate
  simp only [String.isEmpty_iff]
  constructor
  · intro h
    split at h
    · cases h
    · next hinput =>
      split at h
      · cases h
      · next hpath =>
        split at h
        · cases h
        · next hthreads =>
          split at h
          · cases h
          · next hsize =>
            refine ⟨hinput, hpath, Nat.one_le_iff_ne_zero.mpr hthreads,
              Nat.one_le_iff_ne_zero.mpr hsize, fun henabled => ?_⟩
            rw [if_pos henabled] at h
            obtain ⟨paths, hpaths, -⟩ := map_eq_ok_iff.mp h
            exact exists_evaluationPaths_iff.mp ⟨paths, hpaths⟩
  · intro h
    rw [if_neg h.input, if_neg h.path, if_neg (Nat.ne_of_gt h.threads),
      if_neg (Nat.ne_of_gt h.batchSize)]
    split
    · next henabled =>
      obtain ⟨paths, hpaths⟩ := exists_evaluationPaths_iff.mpr (h.compared henabled)
      rw [hpaths]
      rfl
    · rfl

theorem clearEmpty_ne (text : Option String) : clearEmpty text ≠ some "" := by
  unfold clearEmpty
  split
  · intro h
    cases h
  · next hne => exact hne

theorem cleared_normalized (c : Config) : (normalized c).Cleared :=
  ⟨clearEmpty_ne _, clearEmpty_ne _, clearEmpty_ne _, clearEmpty_ne _⟩

theorem cleared_of_ofSettings {root : Settings.Value} (h : ofSettings root = .ok c) :
    c.Cleared := by
  obtain ⟨raw, -, -, -, -, -, rfl⟩ := ofSettings_eq_ok_iff_sections.mp h
  exact cleared_normalized raw

/-- Whatever the layers say, no empty text is left of it. -/
theorem cleared_of_load {tree : Files.Tree} {path : Option String} {o : Overrides}
    {environment : List (String × String)} (h : load tree path o environment = .ok c) :
    c.Cleared := by
  cases path with
  | none => exact cleared_of_ofSettings (mapError_eq_ok_iff.mp h)
  | some file =>
    unfold load at h
    obtain ⟨layer, -, h⟩ := bind_eq_ok_iff.mp h
    exact cleared_of_ofSettings (mapError_eq_ok_iff.mp h)

end CorpusAnnotator.Config
