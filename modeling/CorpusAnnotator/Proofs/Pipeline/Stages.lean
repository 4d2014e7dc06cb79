import CorpusAnnotator.Proofs.Annotator.Batchwise
import CorpusAnnotator.Proofs.Config.Validation
import CorpusAnnotator.Proofs.Pipeline.Steps

/-! When each stage of a run goes well, and what it then leaves. -/
namespace CorpusAnnotator

open Evaluation (Evaluator Exit Launcher Outcome Report)
open Files (Tree)
open Results

variable {σ : Type} {c : Config} {launch : Launcher} {now : Time.Timestamp} {a : Annotator σ}
  {state : σ} {tree tree' : Tree} {corpus : Corpus} {docs : List Document} {s : RunSummary}

/-! ## Up to the annotation -/

/-- The configuration makes sense, the corpus can be read, and every call of the annotator gives as
many documents as it was given, which are `docs` together. -/
structure Annotates (c : Config) (a : Annotator σ) (state : σ) (tree : Tree) (corpus : Corpus)
    (docs : List Document) : Prop where
  valid : c.validate = .ok ()
  read : Corpus.read tree c.corpus.path = .ok corpus
  accepted : ∀ k < Annotator.callCount corpus c.corpus.batchSize,
    (a.callsOn state corpus c.corpus.batchSize).Accepted k
  answers : docs = (List.range (Annotator.callCount corpus c.corpus.batchSize)).flatMap
    (a.callsOn state corpus c.corpus.batchSize).answered

theorem batchSize_ne_zero_of_validate (h : c.validate = .ok ()) : c.corpus.batchSize ≠ 0 :=
  Nat.ne_of_gt (Config.validate_eq_ok_iff.mp h).batchSize

theorem exists_paths_of_validate (h : c.validate = .ok ())
    (henabled : c.evaluation.enabled = true) :
    ∃ gold output, c.evaluationPaths = .ok (gold, output) := by
  obtain ⟨⟨gold, output⟩, hpaths⟩ :=
    Config.exists_evaluationPaths_iff.mpr ((Config.validate_eq_ok_iff.mp h).compared henabled)
  exact ⟨gold, output, hpaths⟩

/-- The archive that is evaluated is the one that is written. -/
theorem output_of_evaluationPaths {gold output : String}
    (h : c.evaluationPaths = .ok (gold, output)) : c.corpus.output = some output := by
  unfold Config.evaluationPaths at h
  split at h
  · cases h
  · cases h
  · next houtput _ =>
    cases h
    exact houtput

theorem Annotates.pass (h : Annotates c a state tree corpus docs) (m : Metrics) :
    (a.annotateCorpus state m corpus c.corpus.batchSize).result = .ok docs ∧
      (a.annotateCorpus state m corpus c.corpus.batchSize).calls =
        (List.range (Annotator.callCount corpus c.corpus.batchSize)).map
          (chunk c.corpus.batchSize corpus.documents) := by
  obtain ⟨hresult, hcalls, -⟩ := Annotator.annotateCorpus_of_accepted (m := m)
    (batchSize_ne_zero_of_validate h.valid) h.accepted
  exact ⟨h.answers ▸ hresult, hcalls⟩

theorem Annotates.of_result (hvalid : c.validate = .ok ())
    (hread : Corpus.read tree c.corpus.path = .ok corpus) {m : Metrics}
    (hresult : (a.annotateCorpus state m corpus c.corpus.batchSize).result = .ok docs) :
    Annotates c a state tree corpus docs := by
  have hsize := batchSize_ne_zero_of_validate hvalid
  have hall := (Annotator.exists_result_iff hsize a state m corpus).mp ⟨docs, hresult⟩
  have hdocs := (Annotator.annotateCorpus_of_accepted (m := m) hsize hall).1
  exact ⟨hvalid, hread, hall, Except.ok.inj (hresult.symm.trans hdocs)⟩

/-- The metrics of an annotation that goes well count its calls. -/
theorem Annotates.batches_eq (h : Annotates c a state tree corpus docs) :
    (a.annotateCorpus state .empty corpus c.corpus.batchSize).metrics.batches =
      Annotator.callCount corpus c.corpus.batchSize := by
  rw [Annotator.batches_annotateCorpus (batchSize_ne_zero_of_validate h.valid) h.accepted]
  exact Nat.zero_add _

/-- The annotation goes well, its times add up, and `s` is its summary. -/
def Accounts (c : Config) (now : Time.Timestamp) (a : Annotator σ) (state : σ) (tree : Tree)
    (docs : List Document) (s : RunSummary) : Prop :=
  ∃ corpus time, Annotates c a state tree corpus docs ∧
    (a.annotateCorpus state .empty corpus c.corpus.batchSize).metrics.annotationTime = .ok time ∧
    s = Run.summaryOf c now docs
      (a.annotateCorpus state .empty corpus c.corpus.batchSize).metrics time

theorem Accounts.unique {docs' : List Document} {s' : RunSummary}
    (h : Accounts c now a state tree docs s) (h' : Accounts c now a state tree docs' s') :
    docs = docs' ∧ s = s' := by
  obtain ⟨corpus, time, hannotates, htime, rfl⟩ := h
  obtain ⟨corpus', time', hannotates', htime', rfl⟩ := h'
  obtain rfl := Except.ok.inj (hannotates.read.symm.trans hannotates'.read)
  obtain rfl := hannotates.answers.trans hannotates'.answers.symm
  obtain rfl := Except.ok.inj (htime.symm.trans htime')
  exact ⟨rfl, rfl⟩

/-! ## From the archive on -/

/-- The archive is written, if one is wanted. -/
inductive Delivers (c : Config) (tree : Tree) (docs : List Document) : Tree → Prop where
  | unwanted : c.corpus.output = none → Delivers c tree docs tree
  | written {path : String} {tree' : Tree} : c.corpus.output = some path →
      Corpus.write tree path docs = .ok tree' → Delivers c tree docs tree'

theorem Delivers.write {path : String} (h : Delivers c tree docs tree')
    (houtput : c.corpus.output = some path) : Corpus.write tree path docs = .ok tree' := by
  cases h with
  | unwanted hnone => cases houtput.symm.trans hnone
  | written hsome hwrite =>
    obtain rfl := Option.some.inj (houtput.symm.trans hsome)
    exact hwrite

theorem Delivers.unique {tree₁ tree₂ : Tree} (h : Delivers c tree docs tree₁)
    (h' : Delivers c tree docs tree₂) : tree₁ = tree₂ := by
  cases h with
  | unwanted hnone =>
    cases h' with
    | unwanted => rfl
    | written hsome => cases hnone.symm.trans hsome
  | written hsome hwrite => exact Except.ok.inj (hwrite.symm.trans (h'.write hsome))

/-- The evaluator is started and gives a report, if an evaluation is wanted. It may also end without
success, but not in a strict run. -/
inductive Evaluates (c : Config) (launch : Launcher) (tree : Tree) :
    Tree → Option Outcome → Prop where
  | unwanted : c.evaluation.enabled = false → Evaluates c launch tree tree none
  | completed {gold output : String} {tree' : Tree} {exit : Exit} {report : Report} :
      c.evaluation.enabled = true → c.evaluationPaths = .ok (gold, output) →
      launch tree ((Evaluator.ofConfig c.evaluation).command gold output) = .ok (tree', exit) →
      exit.code = some 0 → Report.read exit.text c.evaluation.metric = .ok report →
      Evaluates c launch tree tree' (some (.completed report))
  | failed {gold output : String} {tree' : Tree} {exit : Exit} :
      c.evaluation.enabled = true → c.evaluationPaths = .ok (gold, output) →
      launch tree ((Evaluator.ofConfig c.evaluation).command gold output) = .ok (tree', exit) →
      exit.code ≠ some 0 → c.evaluation.strict = false →
      Evaluates c launch tree tree' (some (.failed exit.code exit.text))

/-- The summary is written, if one is wanted. -/
inductive Summarizes (c : Config) (tree : Tree) (s : RunSummary) : Tree → Prop where
  | unwanted : c.summary = none → Summarizes c tree s tree
  | written {path : String} {tree' : Tree} : c.summary = some path →
      s.write tree path = .ok tree' → Summarizes c tree s tree'

/-- Every stage before the summary goes well. They leave `tree'`, and `s` to be written. -/
def Prepares (c : Config) (launch : Launcher) (now : Time.Timestamp) (a : Annotator σ) (state : σ)
    (tree tree' : Tree) (s : RunSummary) : Prop :=
  ∃ docs s₀ tree₁ outcome, Accounts c now a state tree docs s₀ ∧ Delivers c tree docs tree₁ ∧
    Evaluates c launch tree₁ tree' outcome ∧ s = Run.withOutcome s₀ outcome

namespace Run

theorem delivered_eq_ok_iff : delivered c tree docs = .ok tree' ↔ Delivers c tree docs tree' := by
  unfold delivered
  constructor
  · intro h
    cases houtput : c.corpus.output with
    | none =>
      rw [houtput] at h
      cases h
      exact .unwanted houtput
    | some path =>
      rw [houtput] at h
      exact .written houtput (mapError_eq_ok_iff.mp h)
  · rintro (houtput | ⟨houtput, hwrite⟩)
    · rw [houtput]
    · rw [houtput]
      exact mapError_eq_ok_iff.mpr hwrite

theorem summarized_eq_ok_iff : summarized c tree s = .ok tree' ↔ Summarizes c tree s tree' := by
  unfold summarized
  constructor
  · intro h
    cases hsummary : c.summary with
    | none =>
      rw [hsummary] at h
      cases h
      exact .unwanted hsummary
    | some path =>
      rw [hsummary] at h
      exact .written hsummary (mapError_eq_ok_iff.mp h)
  · rintro (hsummary | ⟨hsummary, hwrite⟩)
    · rw [hsummary]
    · rw [hsummary]
      exact mapError_eq_ok_iff.mpr hwrite

/-- An attempt that comes to something has ended: with success and a report, or without. -/
theorem outcome_eq_ok_iff {e : Evaluator} {attempt : Except Files.SystemError Exit}
    {outcome : Outcome} : e.outcome attempt = .ok outcome ↔
      ∃ exit, attempt = .ok exit ∧
        ((exit.code = some 0 ∧ ∃ report, Report.read exit.text e.headline = .ok report ∧
            outcome = .completed report) ∨
          exit.code ≠ some 0 ∧ outcome = .failed exit.code exit.text) := by
  unfold Evaluator.outcome Exit.isSuccess
  cases attempt with
  | error error => simp
  | ok exit =>
    by_cases hcode : exit.code = some 0
    · cases hreport : Report.read exit.text e.headline <;> simp [hcode, hreport, eq_comm]
    · simp [hcode, eq_comm]

theorem evaluates_of_evaluated {outcome : Option Outcome}
    (h : evaluated c launch tree = .ok outcome) :
    Evaluates c launch tree (evaluatedTree c launch tree) outcome := by
  unfold evaluated at h
  unfold evaluatedTree
  cases henabled : c.evaluation.enabled with
  | false =>
    simp only [henabled, Bool.false_eq_true, if_false] at h ⊢
    cases h
    exact .unwanted henabled
  | true =>
    simp only [henabled, if_true] at h ⊢
    cases hpaths : c.evaluationPaths with
    | error l =>
      rw [hpaths] at h
      cases h
    | ok paths =>
      obtain ⟨gold, output⟩ := paths
      simp only [hpaths] at h
      cases hout : (Evaluator.ofConfig c.evaluation).outcome
          ((launch tree ((Evaluator.ofConfig c.evaluation).command gold output)).map Prod.snd) with
      | error e =>
        rw [hout] at h
        cases h
      | ok o =>
        rw [hout] at h
        obtain ⟨exit, hexit, ho⟩ := outcome_eq_ok_iff.mp hout
        obtain ⟨⟨tree', exit⟩, hlaunch, rfl⟩ := map_eq_ok_iff.mp hexit
        simp only [hlaunch, map_ok, treeAfter]
        rcases ho with ⟨hcode, report, hreport, rfl⟩ | ⟨hcode, rfl⟩
        · cases h
          exact .completed henabled hpaths hlaunch hcode hreport
        · -- an end without success is an error in a strict run
          simp only at h
          split at h
          · cases h
          · next hstrict =>
            cases h
            exact .failed henabled hpaths hlaunch hcode (Bool.eq_false_iff.mpr hstrict)

theorem evaluated_of_evaluates {outcome : Option Outcome}
    (h : Evaluates c launch tree tree' outcome) :
    evaluated c launch tree = .ok outcome ∧ evaluatedTree c launch tree = tree' := by
  unfold evaluated evaluatedTree
  cases h with
  | unwanted henabled => simp [henabled]
  | @completed gold output _ exit report henabled hpaths hlaunch hcode hreport =>
    have hout : (Evaluator.ofConfig c.evaluation).outcome (.ok exit) = .ok (.completed report) :=
      outcome_eq_ok_iff.mpr ⟨exit, rfl, .inl ⟨hcode, report, hreport, rfl⟩⟩
    simp [henabled, hpaths, hlaunch, hout, treeAfter]
  | @failed gold output _ exit henabled hpaths hlaunch hcode hstrict =>
    have hout : (Evaluator.ofConfig c.evaluation).outcome (.ok exit) =
        .ok (.failed exit.code exit.text) :=
      outcome_eq_ok_iff.mpr ⟨exit, rfl, .inr ⟨hcode, rfl⟩⟩
    simp [henabled, hpaths, hlaunch, hout, hstrict, treeAfter]

end Run

end CorpusAnnotator
