import CorpusAnnotator.Proofs.Corpus.ReadBack
import CorpusAnnotator.Proofs.Files.Elsewhere
import CorpusAnnotator.Proofs.Pipeline.Outcome
import CorpusAnnotator.Proofs.Summary.Writing

/-! From the corpus to the archive of a whole run. What stands behind the archive in a run, the
evaluation and the summary, leaves it as it is, so the annotations can be read from it in the end,
each in the place of its document. -/
namespace CorpusAnnotator

open Evaluation (Launcher Outcome)
open Files (Tree place?)

variable {σ : Type} {c : Config} {launch : Launcher} {now : Time.Timestamp} {a : Annotator σ}
  {state : σ} {tree tree' : Tree} {corpus : Corpus} {docs : List Document} {s : RunSummary}
  {outcome : Option Outcome} {path : String} {bytes : List UInt8}

/-! ## Behind the archive -/

/-- No program that is started changes what is read from a path. -/
def Leaves (launch : Launcher) (path : String) : Prop :=
  ∀ tree command tree' exit, launch tree command = .ok (tree', exit) →
    tree'.read path = tree.read path

theorem Evaluates.read_eq (h : Evaluates c launch tree tree' outcome)
    (hleaves : Leaves launch path) : tree'.read path = tree.read path := by
  cases h with
  | unwanted => rfl
  | completed _ _ hlaunch => exact hleaves _ _ _ _ hlaunch
  | failed _ _ hlaunch => exact hleaves _ _ _ _ hlaunch

theorem Evaluates.isSome_eq (h : Evaluates c launch tree tree' outcome) :
    outcome.isSome = c.evaluation.enabled := by
  cases h with
  | unwanted henabled => exact henabled.symm
  | completed henabled => exact henabled.symm
  | failed henabled => exact henabled.symm

theorem Summarizes.read (h : Summarizes c tree s tree')
    (helse : ∀ other, c.summary = some other → place? other ≠ place? path)
    (hread : tree.read path = .ok bytes) : tree'.read path = .ok bytes := by
  cases h with
  | unwanted => exact hread
  | written hsummary hwrite =>
    exact Tree.read_of_write_elsewhere (RunSummary.write_eq_ok_iff.mp hwrite).1
      (helse _ hsummary) hread

/-! ## The annotations -/

theorem Annotates.length_eq (h : Annotates c a state tree corpus docs) :
    docs.length = corpus.size := by
  rw [h.answers]
  exact Annotator.length_flatMap_answered (batchSize_ne_zero_of_validate h.valid) h.accepted

theorem Annotates.getElem?_eq (h : Annotates c a state tree corpus docs) {i : Nat}
    (hi : i < corpus.size) : docs[i]? =
      ((a.callsOn state corpus c.corpus.batchSize).answered
        (i / c.corpus.batchSize))[i % c.corpus.batchSize]? := by
  rw [h.answers]
  exact Annotator.getElem?_flatMap_answered (batchSize_ne_zero_of_validate h.valid) h.accepted hi

namespace Run

theorem withOutcome_eq (s : RunSummary) (h : s.evaluation = none) (outcome : Option Outcome) :
    withOutcome s outcome = { s with evaluation := outcome } := by
  cases outcome with
  | none => rw [withOutcome, ← h]
  | some outcome => rfl

end Run

/-- Annotation `i` of the archive belongs to document `i` of the corpus: where a run succeeds, the
archive that it leaves is read as one document for each of the corpus, the one that the annotator has
answered to it, in the entry of its number. The counts and the paths of the summary are those of the
run. -/
theorem Config.run_annotates_in_place (houtput : c.corpus.output = some path)
    (helse : ∀ other, c.summary = some other → place? other ≠ place? path)
    (hleaves : Leaves launch path)
    (hrun : (c.run launch now a state tree).1.result = .ok s) :
    ∃ corpus docs, Corpus.read tree c.corpus.path = .ok corpus ∧
      Corpus.read (c.run launch now a state tree).1.tree path = .ok ⟨path, docs⟩ ∧
      Corpus.archive? (c.run launch now a state tree).1.tree path =
        some (docs.mapIdx fun i d => Archive.stored ("test." ++ toString i) d) ∧
      docs.length = corpus.size ∧
      (∀ i < corpus.size,
        let calls := a.callsOn state corpus c.corpus.batchSize
        let call := i / c.corpus.batchSize
        let number := i % c.corpus.batchSize
        (calls.batch call)[number]? = corpus.documents[i]? ∧
          (calls.answered call)[number]? = docs[i]?) ∧
      s.documents = corpus.size ∧
      s.batches = (corpus.size + (c.corpus.batchSize - 1)) / c.corpus.batchSize ∧
      s.corpus = c.corpus.path ∧ s.output = some path ∧
      s.evaluation.isSome = c.evaluation.enabled := by
  obtain ⟨tree₂, ⟨docs, s₀, tree₁, outcome, ⟨corpus, time, hannotates, -, rfl⟩, hdelivers,
    hevaluates, rfl⟩, hsummarizes⟩ := ends_run.mp ⟨hrun, rfl⟩
  have hsize := batchSize_ne_zero_of_validate hannotates.valid
  have hwrite := hdelivers.write houtput
  have hread := Corpus.read_write hwrite
  rw [← hevaluates.read_eq hleaves] at hread
  have harchive := Corpus.archive?_of_read hwrite (hsummarizes.read helse hread)
  refine ⟨corpus, docs, hannotates.read, Corpus.read_of_archive harchive, harchive,
    hannotates.length_eq, ?_, ?_⟩
  · intro i hi
    exact ⟨getElem?_chunk hsize corpus.documents i, (hannotates.getElem?_eq hi).symm⟩
  · rw [Run.withOutcome_eq _ rfl]
    exact ⟨hannotates.length_eq, hannotates.batches_eq, rfl, houtput, hevaluates.isSome_eq⟩

/-- Three documents in batches of two, annotated over their own archive, with an evaluator that fails
and a summary. -/
theorem Config.run_annotates_in_place_over_corpus :
    let docs : List Document := [[1], [2], [3]]
    let tree : Tree := ⟨[(⟨.above 0, ["a"]⟩, .file (Corpus.archiveOf docs) false)]⟩
    let c : Config :=
      { Config.standard with
        model := { Config.standard.model with input := "m" }
        corpus := { path := "a", batchSize := 2, output := some "a" }
        evaluation := { Config.standard.evaluation with enabled := true, gold := some "g" }
        summary := some "s" }
    let launch : Launcher := fun tree _ => .ok (tree, ⟨some 1, [], []⟩)
    let a := Annotator.scripted ⟨"parser", .reverseBatch, none, "", []⟩
    let now : Time.Timestamp := ⟨⟨1970, 1, 1⟩, 0, 0⟩
    let r := (c.run launch now a 0 tree).1
    ∃ s docs', r.result = .ok s ∧ Corpus.read r.tree "a" = .ok ⟨"a", docs'⟩ ∧
      docs'.length = 3 ∧ s.batches = 2 ∧ s.evaluation.isSome = true := by
  intro docs tree c launch a now r
  have hwritten : Corpus.write .empty "a" docs = .ok tree :=
    Corpus.write_eq_ok_iff.mpr ⟨rfl, by decide, by decide +kernel⟩
  have hread : Corpus.read tree "a" = .ok ⟨"a", docs⟩ :=
    Corpus.read_of_archive (Corpus.archive?_of_read hwritten (Corpus.read_write hwritten))
  have hannotates : Annotates c a 0 tree ⟨"a", docs⟩ [[2], [1], [3]] :=
    ⟨rfl, hread, by decide, by decide⟩
  have hsize : 2 ≠ 0 := by decide
  have hchunks : chunks 2 docs = [[[1], [2]], [[3]]] :=
    (chunks_eq_map_chunk hsize docs).trans (by decide)
  have htime : (a.annotateCorpus 0 .empty ⟨"a", docs⟩ 2).metrics.annotationTime = .ok ⟨0⟩ := by
    rw [Annotator.annotateCorpus, if_neg hsize, hchunks]
    rfl
  have hwrite : Corpus.write tree "a" [[2], [1], [3]] =
      .ok ⟨[(⟨.above 0, ["a"]⟩, .file (Corpus.archiveOf [[2], [1], [3]]) false)]⟩ :=
    Corpus.write_eq_ok_iff.mpr ⟨rfl, by decide, by decide +kernel⟩
  have hbatches : (a.annotateCorpus 0 .empty ⟨"a", docs⟩ 2).metrics.batches = 2 :=
    hannotates.batches_eq.trans (by decide)
  have haccounts : Accounts c now a 0 tree [[2], [1], [3]]
      ⟨now, "a", 3, 2, (⟨0⟩ : Time.Duration).seconds, some "a", none⟩ := by
    refine ⟨_, _, hannotates, htime, ?_⟩
    rw [Run.summaryOf, hbatches]
    rfl
  have hprepares : Prepares c launch now a 0 tree _ _ :=
    ⟨_, _, _, _, haccounts, .written rfl hwrite, .failed rfl rfl rfl (by decide) rfl, rfl⟩
  obtain ⟨s, hresult⟩ : ∃ s, r.result = .ok s := by
    have hends := ends_run.mpr ⟨_, hprepares,
      .written rfl (RunSummary.write_eq_ok_iff.mpr ⟨rfl, by decide +kernel⟩)⟩
    exact ⟨_, (Run.result_trace _).symm.trans hends.1⟩
  have hleaves : Leaves launch "a" := by
    intro tree command tree' exit h
    cases h
    rfl
  have helse : ∀ other, c.summary = some other → place? other ≠ place? "a" := by
    intro other h
    cases h
    decide
  obtain ⟨corpus, docs', hcorpus, hread', -, hlength, -, -, hcount, -, -, hevaluation⟩ :=
    run_annotates_in_place rfl helse hleaves hresult
  obtain rfl := Except.ok.inj (hread.symm.trans hcorpus)
  exact ⟨s, docs', hresult, hread', hlength, hcount.trans (by decide), hevaluation⟩

end CorpusAnnotator
