import CorpusAnnotator.Proofs.Files.ReadBack
import CorpusAnnotator.Proofs.Pipeline.Order
import CorpusAnnotator.Proofs.Pipeline.Stages

/-! What a run does in each case: which of its effects come about, what they find, and whether the
run succeeds. -/
namespace CorpusAnnotator

open Evaluation (Command Evaluator Launcher)
open Files (Tree)
open Results

variable {σ : Type} {c c' : Config} {launch launch' : Launcher} {now : Time.Timestamp}
  {a : Annotator σ} {state : σ} {tree tree' : Tree} {corpus : Corpus} {docs : List Document}
  {s s' : RunSummary} {e : Effect}

/-! ## The end of a run that goes well -/

namespace Run

theorem ends_summarize :
    (summarize c tree s).trace.Ends s' tree' ↔ s = s' ∧ Summarizes c tree s tree' := by
  rw [trace_summarize, Trace.ends_step]
  constructor
  · rintro ⟨tree₁, hwritten, hend⟩
    obtain ⟨rfl, rfl⟩ := Trace.ends_done.mp hend
    exact ⟨rfl, summarized_eq_ok_iff.mp hwritten⟩
  · rintro ⟨rfl, hwritten⟩
    exact ⟨tree', summarized_eq_ok_iff.mpr hwritten, Trace.ends_done.mpr ⟨rfl, rfl⟩⟩

theorem ends_evaluate : (evaluate c launch tree s).trace.Ends s' tree' ↔
    ∃ tree₁ outcome, Evaluates c launch tree tree₁ outcome ∧ withOutcome s outcome = s' ∧
      Summarizes c tree₁ s' tree' := by
  rw [trace_evaluate, Trace.ends_step]
  simp only [leaving_eq_ok_iff]
  constructor
  · rintro ⟨outcome, houtcome, hend⟩
    obtain ⟨rfl, hwritten⟩ := ends_summarize.mp hend
    exact ⟨_, outcome, evaluates_of_evaluated houtcome, rfl, hwritten⟩
  · rintro ⟨tree₁, outcome, hevaluates, rfl, hwritten⟩
    obtain ⟨houtcome, rfl⟩ := evaluated_of_evaluates hevaluates
    exact ⟨outcome, houtcome, ends_summarize.mpr ⟨rfl, hwritten⟩⟩

theorem ends_deliver : (deliver c launch tree docs s).trace.Ends s' tree' ↔
    ∃ tree₁, Delivers c tree docs tree₁ ∧ (evaluate c launch tree₁ s).trace.Ends s' tree' := by
  rw [trace_deliver, Trace.ends_step]
  simp only [delivered_eq_ok_iff]

end Run

/-! ## Up to the archive -/

/-- Where every call is accepted, a run goes on from the answers. -/
theorem Config.trace_run_of_annotates (launch : Launcher) (now : Time.Timestamp)
    (h : Annotates c a state tree corpus docs) :
    (c.run launch now a state tree).1.trace =
      (Run.account c launch now tree
        (a.annotateCorpus state .empty corpus c.corpus.batchSize).metrics docs).trace.behind
        ((a.annotateCorpus state .empty corpus c.corpus.batchSize).calls.map .annotate) := by
  rw [trace_run, h.valid, Run.leaving_ok, Trace.step_ok, Trace.behind_nil, h.read, Run.leaving_ok,
    Trace.step_ok, Trace.behind_nil, Run.trace_annotate, (h.pass .empty).1, Run.leaving_ok,
    Trace.step_ok]

/-- Where the annotation goes well, a run goes on from its documents. -/
theorem Config.trace_run_of_accounts (launch : Launcher) (h : Accounts c now a state tree docs s) :
    ∃ calls : List (List Document), (c.run launch now a state tree).1.trace =
      (Run.deliver c launch tree docs s).trace.behind (calls.map .annotate) := by
  obtain ⟨corpus, time, hannotates, htime, rfl⟩ := h
  refine ⟨(a.annotateCorpus state .empty corpus c.corpus.batchSize).calls, ?_⟩
  rw [trace_run_of_annotates launch now hannotates, Run.trace_account, htime, Run.leaving_ok,
    Trace.step_ok, Trace.behind_nil]

/-- Where it does not, nothing has been done but asking the annotator. -/
theorem Config.trace_run_of_not_accounts (launch : Launcher)
    (h : ∀ docs s, ¬ Accounts c now a state tree docs s) :
    ∃ (calls : List (List Document)) (e : RunError), (c.run launch now a state tree).1.trace =
      ⟨tree, calls.map .annotate, .error e⟩ := by
  rw [trace_run]
  cases hvalid : c.validate with
  | error l => exact ⟨[], _, rfl⟩
  | ok =>
    cases hread : Corpus.read tree c.corpus.path with
    | error e => exact ⟨[], _, rfl⟩
    | ok corpus =>
      rw [Run.leaving_ok, Trace.step_ok, Trace.behind_nil, Run.leaving_ok, Trace.step_ok,
        Trace.behind_nil, Run.trace_annotate]
      cases hresult : (a.annotateCorpus state .empty corpus c.corpus.batchSize).result with
      | error e => exact ⟨_, _, rfl⟩
      | ok docs =>
        rw [Run.leaving_ok, Trace.step_ok, Run.trace_account]
        cases htime : (a.annotateCorpus state .empty corpus
            c.corpus.batchSize).metrics.annotationTime with
        | error e =>
          rw [Run.leaving_error, Trace.step_error]
          exact ⟨_, _, by rw [Trace.behind, List.append_nil]⟩
        | ok time =>
          exact absurd ⟨corpus, time, .of_result hvalid hread hresult, htime, rfl⟩ (h docs _)

theorem Config.ends_run : (c.run launch now a state tree).1.trace.Ends s tree' ↔
    ∃ tree₁, Prepares c launch now a state tree tree₁ s ∧ Summarizes c tree₁ s tree' := by
  constructor
  · intro hend
    -- either the run comes to the archive, or it has ended with an error before
    by_cases h : ∃ docs s₀, Accounts c now a state tree docs s₀
    · obtain ⟨docs, s₀, haccounts⟩ := h
      obtain ⟨calls, htrace⟩ := trace_run_of_accounts launch haccounts
      rw [htrace, Trace.ends_behind] at hend
      obtain ⟨tree₁, hdelivers, hend⟩ := Run.ends_deliver.mp hend
      obtain ⟨tree₂, outcome, hevaluates, rfl, hwritten⟩ := Run.ends_evaluate.mp hend
      exact ⟨tree₂, ⟨docs, s₀, tree₁, outcome, haccounts, hdelivers, hevaluates, rfl⟩, hwritten⟩
    · obtain ⟨calls, e, htrace⟩ := trace_run_of_not_accounts launch
        (fun docs s₀ haccounts => h ⟨docs, s₀, haccounts⟩)
      rw [htrace] at hend
      cases hend.1
  · rintro ⟨tree₂, ⟨docs, s₀, tree₁, outcome, haccounts, hdelivers, hevaluates, rfl⟩, hwritten⟩
    obtain ⟨calls, htrace⟩ := trace_run_of_accounts launch haccounts
    rw [htrace, Trace.ends_behind]
    exact Run.ends_deliver.mpr
      ⟨tree₁, hdelivers, Run.ends_evaluate.mpr ⟨tree₂, outcome, hevaluates, rfl, hwritten⟩⟩

/-! ## Runs that are the same -/

theorem Run.deliver_congr (hcorpus : c'.corpus = c.corpus)
    (h : ∀ tree₁, Delivers c tree docs tree₁ →
      evaluate c' launch' tree₁ s = evaluate c launch tree₁ s) :
    deliver c' launch' tree docs s = deliver c launch tree docs s := by
  unfold deliver
  rw [hcorpus]
  cases houtput : c.corpus.output with
  | none => exact h tree (.unwanted houtput)
  | some path =>
    cases hwrite : Corpus.write tree path docs with
    | error e => simp only [hwrite]
    | ok tree₁ => simp only [hwrite, h tree₁ (.written houtput hwrite)]

theorem Run.account_congr (hcorpus : c'.corpus = c.corpus) {m : Metrics}
    (h : ∀ time, m.annotationTime = .ok time →
      deliver c' launch' tree docs (summaryOf c now docs m time) =
        deliver c launch tree docs (summaryOf c now docs m time)) :
    account c' launch' now tree m docs = account c launch now tree m docs := by
  unfold account
  cases htime : m.annotationTime with
  | error e => rw [summaryEvents_of_annotationTime_error htime]
  | ok time =>
    obtain ⟨events, hevents⟩ := summaryEvents_of_annotationTime htime
    have hsummary : summaryOf c' now docs m time = summaryOf c now docs m time := by
      rw [summaryOf, hcorpus, summaryOf]
    simp only [hevents, hsummary, h time htime]

/-- Runs that go on alike behind the archive are the same. -/
theorem Config.run_congr (hvalidate : c'.validate = c.validate) (hcorpus : c'.corpus = c.corpus)
    (h : ∀ docs s tree₁, Accounts c now a state tree docs s → Delivers c tree docs tree₁ →
      Run.evaluate c' launch' tree₁ s = Run.evaluate c launch tree₁ s) :
    c'.run launch' now a state tree = c.run launch now a state tree := by
  unfold run
  rw [hvalidate, hcorpus]
  cases hvalid : c.validate with
  | error l => rfl
  | ok =>
    cases hread : Corpus.read tree c.corpus.path with
    | error e => rfl
    | ok corpus =>
      unfold Run.annotate
      simp only [hcorpus]
      cases hresult : (a.annotateCorpus state .empty corpus c.corpus.batchSize).result with
      | error e => rfl
      | ok docs =>
        let m := (a.annotateCorpus state .empty corpus c.corpus.batchSize).metrics
        have haccount : Run.account c' launch' now tree m docs =
            Run.account c launch now tree m docs := by
          refine Run.account_congr hcorpus fun time htime => ?_
          refine Run.deliver_congr hcorpus fun tree₁ hdelivers => ?_
          exact h docs _ tree₁ ⟨corpus, time, .of_result hvalid hread hresult, htime, rfl⟩ hdelivers
        simp only [m, haccount]

/-! ## Single effects -/

namespace Run

theorem evaluationEffect?_eq_some (h : evaluationEffect? c = some e) :
    c.evaluation.enabled = true ∧ ∃ gold output, c.evaluationPaths = .ok (gold, output) ∧
      e = .launch ((Evaluator.ofConfig c.evaluation).command gold output) := by
  unfold evaluationEffect? at h
  split at h
  · next henabled =>
    split at h
    · cases h
    · next gold output hpaths =>
      cases h
      exact ⟨henabled, gold, output, hpaths, rfl⟩
  · cases h

theorem evaluationEffect?_of_paths {gold output : String} (henabled : c.evaluation.enabled = true)
    (hpaths : c.evaluationPaths = .ok (gold, output)) : evaluationEffect? c =
      some (.launch ((Evaluator.ofConfig c.evaluation).command gold output)) := by
  unfold evaluationEffect?
  simp only [if_pos henabled, hpaths]

theorem mem_effects_summarize :
    e ∈ (summarize c tree s).trace.effects ↔ summaryEffect? c s = some e := by
  rw [trace_summarize, Trace.mem_effects_step, Option.mem_toList]
  constructor
  · rintro (he | ⟨tree', -, he⟩)
    · exact he
    · cases he
  · exact .inl

theorem mem_effects_evaluate : e ∈ (evaluate c launch tree s).trace.effects ↔
    evaluationEffect? c = some e ∨ ∃ tree' outcome, Evaluates c launch tree tree' outcome ∧
      summaryEffect? c (withOutcome s outcome) = some e := by
  rw [trace_evaluate, Trace.mem_effects_step, Option.mem_toList]
  simp only [leaving_eq_ok_iff, mem_effects_summarize]
  constructor
  · rintro (he | ⟨outcome, houtcome, he⟩)
    · exact .inl he
    · exact .inr ⟨_, outcome, evaluates_of_evaluated houtcome, he⟩
  · rintro (he | ⟨tree', outcome, hevaluates, he⟩)
    · exact .inl he
    · exact .inr ⟨outcome, (evaluated_of_evaluates hevaluates).1, he⟩

theorem mem_effects_deliver : e ∈ (deliver c launch tree docs s).trace.effects ↔
    archiveEffect? c docs = some e ∨
      ∃ tree₁, Delivers c tree docs tree₁ ∧ e ∈ (evaluate c launch tree₁ s).trace.effects := by
  rw [trace_deliver, Trace.mem_effects_step, Option.mem_toList]
  simp only [delivered_eq_ok_iff]

end Run

/-- All effects but annotating are those of the part from the archive on. -/
theorem Config.mem_effects_run (he : 0 < e.stage) :
    e ∈ (c.run launch now a state tree).1.effects ↔ ∃ docs s, Accounts c now a state tree docs s ∧
      e ∈ (Run.deliver c launch tree docs s).trace.effects := by
  have hcalls : ∀ calls : List (List Document), e ∉ calls.map Effect.annotate := by
    intro calls hmem
    obtain ⟨batch, -, rfl⟩ := List.mem_map.mp hmem
    exact Nat.lt_irrefl 0 he
  -- the steps in front of the archive have no effects but the calls
  show e ∈ (c.run launch now a state tree).1.trace.effects ↔ _
  constructor
  · intro hmem
    by_cases h : ∃ docs s, Accounts c now a state tree docs s
    · obtain ⟨docs, s, haccounts⟩ := h
      obtain ⟨calls, htrace⟩ := trace_run_of_accounts launch haccounts
      rw [htrace] at hmem
      rcases Trace.mem_effects_behind.mp hmem with hmem | hmem
      · exact absurd hmem (hcalls calls)
      · exact ⟨docs, s, haccounts, hmem⟩
    · obtain ⟨calls, e', htrace⟩ := trace_run_of_not_accounts launch
        (fun docs s haccounts => h ⟨docs, s, haccounts⟩)
      rw [htrace] at hmem
      exact absurd hmem (hcalls calls)
  · rintro ⟨docs, s, haccounts, hmem⟩
    obtain ⟨calls, htrace⟩ := trace_run_of_accounts launch haccounts
    rw [htrace]
    exact Trace.mem_effects_behind.mpr (.inr hmem)

theorem Config.writeArchive_mem_effects_run {path : String} :
    .writeArchive path docs ∈ (c.run launch now a state tree).1.effects ↔
      c.corpus.output = some path ∧ ∃ s, Accounts c now a state tree docs s := by
  rw [mem_effects_run (e := .writeArchive path docs) (Nat.succ_pos _)]
  simp only [Run.mem_effects_deliver, Run.mem_effects_evaluate]
  constructor
  · rintro ⟨docs', s, haccounts, he | ⟨tree₁, -, he | ⟨tree₂, outcome, -, he⟩⟩⟩
    · obtain ⟨path', hpath, he⟩ := Option.map_eq_some_iff.mp he
      cases he
      exact ⟨hpath, s, haccounts⟩
    · obtain ⟨-, gold, output, -, he⟩ := Run.evaluationEffect?_eq_some he
      cases he
    · obtain ⟨path', hpath, he⟩ := Option.map_eq_some_iff.mp he
      cases he
  · rintro ⟨hpath, s, haccounts⟩
    exact ⟨docs, s, haccounts, .inl (Option.map_eq_some_iff.mpr ⟨path, hpath, rfl⟩)⟩

theorem Config.launch_mem_effects_run {command : Command} :
    .launch command ∈ (c.run launch now a state tree).1.effects ↔
      Run.evaluationEffect? c = some (.launch command) ∧
        ∃ docs s tree₁, Accounts c now a state tree docs s ∧ Delivers c tree docs tree₁ := by
  rw [mem_effects_run (e := .launch command) (Nat.succ_pos _)]
  simp only [Run.mem_effects_deliver, Run.mem_effects_evaluate]
  constructor
  · rintro ⟨docs, s, haccounts, he | ⟨tree₁, hdelivers, he | ⟨tree₂, outcome, -, he⟩⟩⟩
    · obtain ⟨path, -, he⟩ := Option.map_eq_some_iff.mp he
      cases he
    · exact ⟨he, docs, s, tree₁, haccounts, hdelivers⟩
    · obtain ⟨path, -, he⟩ := Option.map_eq_some_iff.mp he
      cases he
  · rintro ⟨he, docs, s, tree₁, haccounts, hdelivers⟩
    exact ⟨docs, s, haccounts, .inr ⟨tree₁, hdelivers, .inl he⟩⟩

theorem Config.writeSummary_mem_effects_run {path : String} :
    .writeSummary path s ∈ (c.run launch now a state tree).1.effects ↔
      c.summary = some path ∧ ∃ tree', Prepares c launch now a state tree tree' s := by
  rw [mem_effects_run (e := .writeSummary path s) (Nat.succ_pos _)]
  simp only [Run.mem_effects_deliver, Run.mem_effects_evaluate]
  constructor
  · rintro ⟨docs, s₀, haccounts, he | ⟨tree₁, hdelivers, he | ⟨tree₂, outcome, hevaluates, he⟩⟩⟩
    · obtain ⟨path', -, he⟩ := Option.map_eq_some_iff.mp he
      cases he
    · obtain ⟨-, gold, output, -, he⟩ := Run.evaluationEffect?_eq_some he
      cases he
    · obtain ⟨path', hpath, he⟩ := Option.map_eq_some_iff.mp he
      cases he
      exact ⟨hpath, tree₂, docs, s₀, tree₁, outcome, haccounts, hdelivers, hevaluates, rfl⟩
  · rintro ⟨hpath, tree₂, docs, s₀, tree₁, outcome, haccounts, hdelivers, hevaluates, rfl⟩
    exact ⟨docs, s₀, haccounts, .inr ⟨tree₁, hdelivers, .inr ⟨tree₂, outcome, hevaluates,
      Option.map_eq_some_iff.mpr ⟨path, hpath, rfl⟩⟩⟩⟩

end CorpusAnnotator
