import CorpusAnnotator.Proofs.Corpus.Writing
import CorpusAnnotator.Proofs.Pipeline.Outcome
import CorpusAnnotator.Proofs.Summary.Writing

/-! How a run fails, and what it leaves of the files. A stage fails only if all before it have gone
well. Up to the annotation the files stay as they are; a failing write can have begun its own file;
the evaluator and the summary find the files as the stages before have left them. -/
namespace CorpusAnnotator

open Evaluation (Evaluator Exit Launcher Report ReportError)
open Files (Tree)
open Results

variable {σ : Type} {c : Config} {launch : Launcher} {now : Time.Timestamp} {a : Annotator σ}
  {state : σ} {tree tree' : Tree} {corpus : Corpus} {docs : List Document} {s : RunSummary}
  {e : RunError} {k : Nat}

/-- At most the file of a path has been begun, with whatever bytes. -/
def Begins (tree : Tree) (path : String) (tree' : Tree) : Prop :=
  tree' = tree ∨ ∃ bytes, tree.write path bytes = .ok tree'

/-- Call `k` is the first one that is not accepted. -/
structure StopsAt (c : Config) (a : Annotator σ) (state : σ) (tree : Tree) (corpus : Corpus)
    (k : Nat) : Prop where
  valid : c.validate = .ok ()
  read : Corpus.read tree c.corpus.path = .ok corpus
  lt : k < Annotator.callCount corpus c.corpus.batchSize
  accepted : ∀ j < k, (a.callsOn state corpus c.corpus.batchSize).Accepted j
  bad : ¬ (a.callsOn state corpus c.corpus.batchSize).Accepted k

/-- The evaluator cannot be started, succeeds without a report, or fails in a strict run. -/
inductive Misevaluates (c : Config) (launch : Launcher) (tree : Tree) : RunError → Tree → Prop where
  | unstarted {gold output : String} {error : Files.SystemError} :
      c.evaluation.enabled = true → c.evaluationPaths = .ok (gold, output) →
      launch tree ((Evaluator.ofConfig c.evaluation).command gold output) = .error error →
      Misevaluates c launch tree (.evaluation (.unstartable c.evaluation.evaluator error)) tree
  | unreported {gold output : String} {tree' : Tree} {exit : Exit} {error : ReportError} :
      c.evaluation.enabled = true → c.evaluationPaths = .ok (gold, output) →
      launch tree ((Evaluator.ofConfig c.evaluation).command gold output) = .ok (tree', exit) →
      exit.code = some 0 → Report.read exit.text c.evaluation.metric = .error error →
      Misevaluates c launch tree (.evaluation (.badReport error)) tree'
  | failed {gold output : String} {tree' : Tree} {exit : Exit} :
      c.evaluation.enabled = true → c.evaluationPaths = .ok (gold, output) →
      launch tree ((Evaluator.ofConfig c.evaluation).command gold output) = .ok (tree', exit) →
      exit.code ≠ some 0 → c.evaluation.strict = true →
      Misevaluates c launch tree (.evaluator exit.code) tree'

/-- A run fails at one of its stages, with an error and with the files that it leaves. -/
inductive Fails (c : Config) (launch : Launcher) (now : Time.Timestamp) (a : Annotator σ)
    (state : σ) (tree : Tree) : RunError → Tree → Prop where
  | lack {l : Config.Lack} : c.validate = .error l → Fails c launch now a state tree (.lack l) tree
  | unread {e : Corpus.ReadError} : c.validate = .ok () →
      Corpus.read tree c.corpus.path = .error e → Fails c launch now a state tree (.corpus e) tree
  | unannotated {corpus : Corpus} {k : Nat} : StopsAt c a state tree corpus k →
      Fails c launch now a state tree
        (.annotator ((a.callsOn state corpus c.corpus.batchSize).complaint k)) tree
  | uncounted {corpus : Corpus} {docs : List Document} {e : Metrics.Error} :
      Annotates c a state tree corpus docs →
      (a.annotateCorpus state .empty corpus c.corpus.batchSize).metrics.annotationTime = .error e →
      Fails c launch now a state tree (.metrics e) tree
  | undelivered {docs : List Document} {s : RunSummary} {path : String} {e : Corpus.WriteError} :
      Accounts c now a state tree docs s → c.corpus.output = some path →
      Corpus.write tree path docs = .error e →
      Fails c launch now a state tree (.output e.fault) e.left
  | unevaluated {docs : List Document} {s : RunSummary} {tree₁ tree₂ : Tree} {e : RunError} :
      Accounts c now a state tree docs s → Delivers c tree docs tree₁ →
      Misevaluates c launch tree₁ e tree₂ → Fails c launch now a state tree e tree₂
  | unsummarized {s : RunSummary} {tree₂ : Tree} {path : String} {e : RunSummary.WriteError} :
      Prepares c launch now a state tree tree₂ s → c.summary = some path →
      s.write tree₂ path = .error e → Fails c launch now a state tree (.summary e.fault) e.left

/-! ## The annotator -/

theorem StopsAt.pass (h : StopsAt c a state tree corpus k) (m : Metrics) :
    (a.annotateCorpus state m corpus c.corpus.batchSize).result =
        .error ((a.callsOn state corpus c.corpus.batchSize).complaint k) ∧
      (a.annotateCorpus state m corpus c.corpus.batchSize).calls =
        (List.range (k + 1)).map (chunk c.corpus.batchSize corpus.documents) ∧
      (a.annotateCorpus state m corpus c.corpus.batchSize).state =
        (a.callsOn state corpus c.corpus.batchSize).before (k + 1) :=
  Annotator.annotateCorpus_of_not_accepted (batchSize_ne_zero_of_validate h.valid) h.lt h.accepted
    h.bad

theorem StopsAt.of_result (hvalid : c.validate = .ok ())
    (hread : Corpus.read tree c.corpus.path = .ok corpus) {m : Metrics} {error : AnnotationError}
    (hresult : (a.annotateCorpus state m corpus c.corpus.batchSize).result = .error error) :
    ∃ k, StopsAt c a state tree corpus k ∧
      error = (a.callsOn state corpus c.corpus.batchSize).complaint k := by
  rcases Annotator.annotateCorpus_cases (batchSize_ne_zero_of_validate hvalid) a state m corpus with
    ⟨-, hok, -⟩ | ⟨k, hk, haccepted, hbad, herror, -⟩
  · cases hok.symm.trans hresult
  · exact ⟨k, ⟨hvalid, hread, hk, haccepted, hbad⟩, Except.error.inj (hresult.symm.trans herror)⟩

/-- The first call that is not accepted is the last thing that a run does. -/
theorem Config.trace_run_of_stopsAt (launch : Launcher) (now : Time.Timestamp)
    (h : StopsAt c a state tree corpus k) : (c.run launch now a state tree).1.trace =
      ⟨tree, ((List.range (k + 1)).map (chunk c.corpus.batchSize corpus.documents)).map .annotate,
        .error (.annotator ((a.callsOn state corpus c.corpus.batchSize).complaint k))⟩ := by
  obtain ⟨hresult, hcalls, -⟩ := h.pass .empty
  rw [trace_run, h.valid, Run.leaving_ok, Trace.step_ok, Trace.behind_nil, h.read, Run.leaving_ok,
    Trace.step_ok, Trace.behind_nil, Run.trace_annotate, hresult, hcalls, Run.leaving_error,
    Trace.step_error]

/-- The annotator is left in the state after that call. -/
theorem Config.state_run_of_stopsAt (h : StopsAt c a state tree corpus k) :
    (c.run launch now a state tree).2 =
      (a.callsOn state corpus c.corpus.batchSize).before (k + 1) := by
  obtain ⟨-, -, hstate⟩ := h.pass .empty
  unfold run
  rw [h.valid, h.read]
  exact hstate

/-! ## From the archive on -/

namespace Run

theorem fails_summarize : (summarize c tree s).trace.Fails e tree' ↔
    ∃ path error, c.summary = some path ∧ s.write tree path = .error error ∧
      e = .summary error.fault ∧ tree' = error.left := by
  rw [trace_summarize, Trace.fails_step]
  simp only [Trace.not_fails_done, and_false, exists_false, or_false]
  unfold summarized
  cases c.summary with
  | none => simp
  | some path => simp [mapError_prod_eq_error_iff]

/-- An attempt comes to nothing if the program cannot be started or succeeds without a report. -/
theorem outcome_eq_error_iff {evaluator : Evaluator} {attempt : Except Files.SystemError Exit}
    {error : Evaluation.Error} : evaluator.outcome attempt = .error error ↔
      (∃ error', attempt = .error error' ∧ error = .unstartable evaluator.program error') ∨
        ∃ exit, attempt = .ok exit ∧ exit.code = some 0 ∧
          ∃ error', Report.read exit.text evaluator.headline = .error error' ∧
            error = .badReport error' := by
  unfold Evaluator.outcome Exit.isSuccess
  cases attempt with
  | error error' => simp [eq_comm]
  | ok exit =>
    by_cases hcode : exit.code = some 0
    · cases hreport : Report.read exit.text evaluator.headline <;> simp [hcode, hreport, eq_comm]
    · simp [hcode]

theorem misevaluates_of_evaluated (hvalid : c.validate = .ok ())
    (h : evaluated c launch tree = .error e) :
    Misevaluates c launch tree e (evaluatedTree c launch tree) := by
  unfold evaluated at h
  unfold evaluatedTree
  split at h
  · next henabled =>
    rw [if_pos henabled]
    obtain ⟨gold, output, hpaths⟩ := exists_paths_of_validate hvalid henabled
    rw [hpaths] at h ⊢
    simp only at h ⊢
    cases hout : (Evaluator.ofConfig c.evaluation).outcome
        ((launch tree ((Evaluator.ofConfig c.evaluation).command gold output)).map Prod.snd) with
    | error error =>
      rw [hout] at h
      cases h
      rcases outcome_eq_error_iff.mp hout with
        ⟨error, hattempt, rfl⟩ | ⟨exit, hattempt, hcode, error, hreport, rfl⟩
      · have hlaunch := map_eq_error_iff.mp hattempt
        rw [hlaunch]
        exact .unstarted henabled hpaths hlaunch
      · obtain ⟨⟨tree', exit⟩, hlaunch, rfl⟩ := map_eq_ok_iff.mp hattempt
        rw [hlaunch]
        exact .unreported henabled hpaths hlaunch hcode hreport
    | ok outcome =>
      rw [hout] at h
      obtain ⟨exit, hattempt, ⟨-, report, -, rfl⟩ | ⟨hcode, rfl⟩⟩ := outcome_eq_ok_iff.mp hout
      · cases h
      · obtain ⟨⟨tree', exit⟩, hlaunch, rfl⟩ := map_eq_ok_iff.mp hattempt
        simp only at h
        split at h
        · next hstrict =>
          cases h
          rw [hlaunch]
          exact .failed henabled hpaths hlaunch hcode hstrict
        · cases h
  · cases h

theorem evaluated_of_misevaluates (h : Misevaluates c launch tree e tree') :
    evaluated c launch tree = .error e ∧ evaluatedTree c launch tree = tree' := by
  unfold evaluated evaluatedTree
  cases h with
  | @unstarted gold output error henabled hpaths hlaunch =>
    have hout : (Evaluator.ofConfig c.evaluation).outcome (.error error) =
        .error (.unstartable c.evaluation.evaluator error) := rfl
    simp [henabled, hpaths, hlaunch, hout, treeAfter]
  | @unreported gold output tree' exit error henabled hpaths hlaunch hcode hreport =>
    have hout : (Evaluator.ofConfig c.evaluation).outcome (.ok exit) = .error (.badReport error) :=
      outcome_eq_error_iff.mpr (.inr ⟨exit, rfl, hcode, error, hreport, rfl⟩)
    simp [henabled, hpaths, hlaunch, hout, treeAfter]
  | @failed gold output tree' exit henabled hpaths hlaunch hcode hstrict =>
    have hout : (Evaluator.ofConfig c.evaluation).outcome (.ok exit) =
        .ok (.failed exit.code exit.text) :=
      outcome_eq_ok_iff.mpr ⟨exit, rfl, .inr ⟨hcode, rfl⟩⟩
    simp [henabled, hpaths, hlaunch, hout, hstrict, treeAfter]

theorem fails_evaluate (hvalid : c.validate = .ok ()) :
    (evaluate c launch tree s).trace.Fails e tree' ↔
      Misevaluates c launch tree e tree' ∨ ∃ tree₁ outcome, Evaluates c launch tree tree₁ outcome ∧
        (summarize c tree₁ (withOutcome s outcome)).trace.Fails e tree' := by
  rw [trace_evaluate, Trace.fails_step, leaving_eq_error_iff]
  simp only [leaving_eq_ok_iff]
  constructor
  · rintro (⟨e', he', rfl, rfl⟩ | ⟨outcome, houtcome, hfails⟩)
    · exact .inl (misevaluates_of_evaluated hvalid he')
    · exact .inr ⟨_, outcome, evaluates_of_evaluated houtcome, hfails⟩
  · rintro (hmisevaluates | ⟨tree₁, outcome, hevaluates, hfails⟩)
    · obtain ⟨herror, htree⟩ := evaluated_of_misevaluates hmisevaluates
      exact .inl ⟨e, herror, rfl, htree.symm⟩
    · obtain ⟨houtcome, rfl⟩ := evaluated_of_evaluates hevaluates
      exact .inr ⟨outcome, houtcome, hfails⟩

theorem fails_deliver : (deliver c launch tree docs s).trace.Fails e tree' ↔
    (∃ path error, c.corpus.output = some path ∧ Corpus.write tree path docs = .error error ∧
      e = .output error.fault ∧ tree' = error.left) ∨
    ∃ tree₁, Delivers c tree docs tree₁ ∧ (evaluate c launch tree₁ s).trace.Fails e tree' := by
  rw [trace_deliver, Trace.fails_step]
  simp only [delivered_eq_ok_iff]
  refine or_congr ?_ Iff.rfl
  unfold delivered
  cases c.corpus.output with
  | none => simp
  | some path => simp [mapError_prod_eq_error_iff]

end Run

/-! ## Writes that fail -/

/-- A write of the archive that fails can have begun the archive, and nothing else. -/
theorem Fails.begins_output {fault : Corpus.WriteFault}
    (h : Fails c launch now a state tree (.output fault) tree') :
    ∃ path, c.corpus.output = some path ∧ Begins tree path tree' := by
  cases h with
  | @undelivered docs s path e haccounts houtput hwrite =>
    refine ⟨path, houtput, (Corpus.left_of_write hwrite).imp_right ?_⟩
    rintro ⟨size, hleft⟩
    exact ⟨_, hleft⟩
  | unevaluated _ _ hmisevaluates => cases hmisevaluates

/-- So with the summary. -/
theorem Fails.begins_summary {fault : RunSummary.WriteFault}
    (h : Fails c launch now a state tree (.summary fault) tree') :
    ∃ path tree₁ s, c.summary = some path ∧ Prepares c launch now a state tree tree₁ s ∧
      Begins tree₁ path tree' := by
  cases h with
  | @unsummarized s tree₁ path e hprepares hsummary hwrite =>
    refine ⟨path, tree₁, s, hsummary, hprepares, (RunSummary.left_of_write hwrite).imp_right ?_⟩
    rintro ⟨size, hleft⟩
    exact ⟨_, hleft⟩
  | unevaluated _ _ hmisevaluates => cases hmisevaluates

/-! ## Whole runs -/

theorem Accounts.valid (h : Accounts c now a state tree docs s) : c.validate = .ok () := by
  obtain ⟨corpus, time, hannotates, -⟩ := h
  exact hannotates.valid

theorem fails_of_deliver (haccounts : Accounts c now a state tree docs s)
    (h : (Run.deliver c launch tree docs s).trace.Fails e tree') :
    Fails c launch now a state tree e tree' := by
  rcases Run.fails_deliver.mp h with
    ⟨path, error, houtput, hwrite, rfl, rfl⟩ | ⟨tree₁, hdelivers, h⟩
  · exact .undelivered haccounts houtput hwrite
  · rcases (Run.fails_evaluate haccounts.valid).mp h with
      hmisevaluates | ⟨tree₂, outcome, hevaluates, h⟩
    · exact .unevaluated haccounts hdelivers hmisevaluates
    · obtain ⟨path, error, hsummary, hwrite, rfl, rfl⟩ := Run.fails_summarize.mp h
      exact .unsummarized ⟨docs, s, tree₁, outcome, haccounts, hdelivers, hevaluates, rfl⟩
        hsummary hwrite

theorem fails_of_run (h : (c.run launch now a state tree).1.trace.Fails e tree') :
    Fails c launch now a state tree e tree' := by
  rw [Config.trace_run] at h
  rcases Trace.fails_step.mp h with h | ⟨⟨⟩, hvalid, h⟩
  · obtain ⟨l, hl, rfl, rfl⟩ := Run.leaving_eq_error_iff.mp h
    exact .lack hl
  replace hvalid := Run.leaving_eq_ok_iff.mp hvalid
  rcases Trace.fails_step.mp h with h | ⟨corpus, hread, h⟩
  · obtain ⟨error, hread, rfl, rfl⟩ := Run.leaving_eq_error_iff.mp h
    exact .unread hvalid hread
  replace hread := Run.leaving_eq_ok_iff.mp hread
  rw [Run.trace_annotate] at h
  rcases Trace.fails_step.mp h with h | ⟨docs, hresult, h⟩
  · obtain ⟨error, hresult, rfl, rfl⟩ := Run.leaving_eq_error_iff.mp h
    obtain ⟨k, hstops, rfl⟩ := StopsAt.of_result hvalid hread hresult
    exact .unannotated hstops
  have hannotates := Annotates.of_result hvalid hread (Run.leaving_eq_ok_iff.mp hresult)
  rw [Run.trace_account] at h
  rcases Trace.fails_step.mp h with h | ⟨time, htime, h⟩
  · obtain ⟨error, htime, rfl, rfl⟩ := Run.leaving_eq_error_iff.mp h
    exact .uncounted hannotates htime
  · exact fails_of_deliver ⟨corpus, time, hannotates, Run.leaving_eq_ok_iff.mp htime, rfl⟩ h

/-- A run fails with an error and leaves some files exactly if one of its stages does. -/
theorem Config.fails_run : (c.run launch now a state tree).1.trace.Fails e tree' ↔
    Fails c launch now a state tree e tree' := by
  constructor
  · exact fails_of_run
  · intro h
    have hdeliver {docs : List Document} {s : RunSummary}
        (haccounts : Accounts c now a state tree docs s)
        (h : (Run.deliver c launch tree docs s).trace.Fails e tree') :
        (c.run launch now a state tree).1.trace.Fails e tree' := by
      obtain ⟨calls, htrace⟩ := trace_run_of_accounts launch haccounts
      rw [htrace]
      exact Trace.fails_behind.mpr h
    cases h with
    | lack hl =>
      rw [trace_run, hl]
      exact ⟨rfl, rfl⟩
    | unread hvalid hread =>
      rw [trace_run, hvalid, hread]
      exact ⟨rfl, rfl⟩
    | unannotated hstops =>
      rw [trace_run_of_stopsAt launch now hstops]
      exact ⟨rfl, rfl⟩
    | uncounted hannotates htime =>
      rw [trace_run_of_annotates launch now hannotates, Run.trace_account, htime]
      exact ⟨rfl, rfl⟩
    | undelivered haccounts houtput hwrite =>
      exact hdeliver haccounts (Run.fails_deliver.mpr (.inl ⟨_, _, houtput, hwrite, rfl, rfl⟩))
    | unevaluated haccounts hdelivers hmisevaluates =>
      exact hdeliver haccounts (Run.fails_deliver.mpr (.inr
        ⟨_, hdelivers, (Run.fails_evaluate haccounts.valid).mpr (.inl hmisevaluates)⟩))
    | unsummarized hprepares hsummary hwrite =>
      obtain ⟨docs, s₀, tree₁, outcome, haccounts, hdelivers, hevaluates, rfl⟩ := hprepares
      exact hdeliver haccounts (Run.fails_deliver.mpr (.inr
        ⟨_, hdelivers, (Run.fails_evaluate haccounts.valid).mpr (.inr
          ⟨_, _, hevaluates, Run.fails_summarize.mpr ⟨_, _, hsummary, hwrite, rfl, rfl⟩⟩)⟩))

end CorpusAnnotator
