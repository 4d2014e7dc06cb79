import CorpusAnnotator.Pipeline
import CorpusAnnotator.Proofs.Results

/-! A run as a chain of steps. Each step has effects and an outcome, and the steps behind it are
taken only if the outcome is good. -/
namespace CorpusAnnotator

open Evaluation (Evaluator Launcher Outcome)
open Files (Tree)

/-- What is left of a run, but for what it told. -/
structure Trace where
  tree : Tree
  effects : List Effect
  result : Except RunError RunSummary

def Run.trace (r : Run) : Trace := ⟨r.tree, r.effects, r.result⟩

theorem Run.effects_trace (r : Run) : r.trace.effects = r.effects := rfl

theorem Run.result_trace (r : Run) : r.trace.result = r.result := rfl

namespace Trace

/-- The end of a run that went well. -/
def done (s : RunSummary) (tree : Tree) : Trace := ⟨tree, [], .ok s⟩

/-- A trace with more effects in front. -/
def behind (effects : List Effect) (t : Trace) : Trace :=
  { t with effects := effects ++ t.effects }

/-- A step and those behind it. A step that fails has an error, and files that it leaves. -/
def step {α : Type} (effects : List Effect) (outcome : Except (RunError × Tree) α)
    (next : α → Trace) : Trace :=
  match outcome with
  | .error (e, tree) => ⟨tree, effects, .error e⟩
  | .ok x => (next x).behind effects

variable {α : Type} {effects : List Effect} {tree : Tree} {outcome : Except (RunError × Tree) α}
  {next : α → Trace}

theorem step_error (e : RunError) (tree : Tree) :
    step effects (.error (e, tree)) next = ⟨tree, effects, .error e⟩ := rfl

theorem step_ok (x : α) : step effects (.ok x) next = (next x).behind effects := rfl

theorem behind_nil (t : Trace) : t.behind [] = t := rfl

theorem behind_behind (earlier : List Effect) (t : Trace) :
    (t.behind effects).behind earlier = t.behind (earlier ++ effects) := by
  simp only [behind, List.append_assoc]

theorem mem_effects_behind {e : Effect} {t : Trace} :
    e ∈ (t.behind effects).effects ↔ e ∈ effects ∨ e ∈ t.effects :=
  List.mem_append

theorem mem_effects_step {e : Effect} : e ∈ (step effects outcome next).effects ↔
    e ∈ effects ∨ ∃ x, outcome = .ok x ∧ e ∈ (next x).effects := by
  cases outcome <;> simp [step, mem_effects_behind]

/-- A run ends well, with a summary and a tree. -/
def Ends (t : Trace) (s : RunSummary) (tree : Tree) : Prop :=
  t.result = .ok s ∧ t.tree = tree

/-- A run fails, with an error and a tree. -/
def Fails (t : Trace) (e : RunError) (tree : Tree) : Prop :=
  t.result = .error e ∧ t.tree = tree

variable {s s' : RunSummary} {e : RunError} {tree' : Tree}

theorem ends_behind {t : Trace} : (t.behind effects).Ends s tree ↔ t.Ends s tree := Iff.rfl

theorem ends_step : (step effects outcome next).Ends s tree' ↔
    ∃ x, outcome = .ok x ∧ (next x).Ends s tree' := by
  cases outcome <;> simp [step, Ends, behind]

theorem ends_done : (done s tree).Ends s' tree' ↔ s = s' ∧ tree = tree' := by
  simp [done, Ends]

theorem fails_behind {t : Trace} : (t.behind effects).Fails e tree ↔ t.Fails e tree := Iff.rfl

/-- A run fails in its first step or in a later one. -/
theorem fails_step : (step effects outcome next).Fails e tree' ↔
    outcome = .error (e, tree') ∨ ∃ x, outcome = .ok x ∧ (next x).Fails e tree' := by
  cases outcome <;> simp [step, Fails, behind, Prod.ext_iff]

theorem not_fails_done : ¬ (done s tree).Fails e tree' := nofun

end Trace

/-! ## The steps -/

namespace Run

variable {c : Config} {launch : Launcher} {now : Time.Timestamp} {tree : Tree} {s : RunSummary}

theorem trace_stop (tree : Tree) (e : RunError) : (stop tree e).trace = ⟨tree, [], .error e⟩ := rfl

theorem trace_after (effects : List Effect) (events : List Event) (r : Run) :
    (r.after effects events).trace = r.trace.behind effects := rfl

/-- A step that leaves the files `tree` if it fails. -/
def leaving {α ε : Type} (tree : Tree) (error : ε → RunError) (outcome : Except ε α) :
    Except (RunError × Tree) α :=
  outcome.mapError fun e => (error e, tree)

theorem leaving_ok {α ε : Type} (tree : Tree) (error : ε → RunError) (x : α) :
    leaving tree error (.ok x) = .ok x := rfl

theorem leaving_error {α ε : Type} (tree : Tree) (error : ε → RunError) (e : ε) :
    leaving tree error (.error e : Except ε α) = .error (error e, tree) := rfl

theorem leaving_eq_ok_iff {α ε : Type} {error : ε → RunError} {outcome : Except ε α} {x : α} :
    leaving tree error outcome = .ok x ↔ outcome = .ok x :=
  Results.mapError_eq_ok_iff

theorem leaving_eq_error_iff {α ε : Type} {error : ε → RunError} {outcome : Except ε α}
    {e : RunError} {tree' : Tree} : leaving tree error outcome = .error (e, tree') ↔
      ∃ e', outcome = .error e' ∧ e = error e' ∧ tree' = tree :=
  Results.mapError_prod_eq_error_iff

def summaryEffect? (c : Config) (s : RunSummary) : Option Effect :=
  c.summary.map (.writeSummary · s)

/-- The files after the summary. -/
def summarized (c : Config) (tree : Tree) (s : RunSummary) : Except (RunError × Tree) Tree :=
  match c.summary with
  | none => .ok tree
  | some path => (s.write tree path).mapError fun e => (.summary e.fault, e.left)

theorem trace_summarize (c : Config) (tree : Tree) (s : RunSummary) :
    (summarize c tree s).trace =
      Trace.step (summaryEffect? c s).toList (summarized c tree s) (Trace.done s) := by
  unfold summarize summaryEffect? summarized
  cases c.summary with
  | none => rfl
  | some path =>
    cases hwritten : s.write tree path with
    | error e => simp only [hwritten]; rfl
    | ok tree' => simp only [hwritten]; rfl

def evaluationEffect? (c : Config) : Option Effect :=
  if c.evaluation.enabled then
    match c.evaluationPaths with
    | .error _ => none
    | .ok (gold, output) => some (.launch ((Evaluator.ofConfig c.evaluation).command gold output))
  else none

/-- The files after the evaluator was started, whatever came of it. -/
def evaluatedTree (c : Config) (launch : Launcher) (tree : Tree) : Tree :=
  if c.evaluation.enabled then
    match c.evaluationPaths with
    | .error _ => tree
    | .ok (gold, output) =>
      treeAfter tree
        ((launch tree ((Evaluator.ofConfig c.evaluation).command gold output)).map Prod.fst)
  else tree

/-- The outcome of the evaluation, if there is one. A failed one is an error in a strict run. -/
def evaluated (c : Config) (launch : Launcher) (tree : Tree) : Except RunError (Option Outcome) :=
  if c.evaluation.enabled then
    match c.evaluationPaths with
    | .error l => .error (.lack l)
    | .ok (gold, output) =>
      let evaluator := Evaluator.ofConfig c.evaluation
      match evaluator.outcome ((launch tree (evaluator.command gold output)).map Prod.snd) with
      | .error e => .error (.evaluation e)
      | .ok (.failed code output) =>
        if c.evaluation.strict then .error (.evaluator code) else .ok (some (.failed code output))
      | .ok (.completed report) => .ok (some (.completed report))
  else .ok none

/-- A summary with the outcome of the evaluation, if there is one. -/
def withOutcome (s : RunSummary) : Option Outcome → RunSummary
  | none => s
  | some outcome => { s with evaluation := some outcome }

theorem evaluate_of_disabled (henabled : ¬ c.evaluation.enabled = true) :
    evaluate c launch tree s = summarize c tree s :=
  if_neg henabled

theorem evaluate_of_lack {l : Config.Lack} (henabled : c.evaluation.enabled = true)
    (hpaths : c.evaluationPaths = .error l) :
    evaluate c launch tree s = stop tree (.lack l) := by
  rw [evaluate, if_pos henabled, hpaths]

/-- The steps behind the end of the evaluator. -/
def proceed (c : Config) (tree : Tree) (s : RunSummary) : Except Evaluation.Error Outcome → Run
  | .error e => stop tree (.evaluation e)
  | .ok outcome => conclude c tree s outcome

/-- Where the paths are there, the evaluator is started, and its end decides what follows. -/
theorem evaluate_of_paths {gold output : String} (henabled : c.evaluation.enabled = true)
    (hpaths : c.evaluationPaths = .ok (gold, output)) :
    let evaluator := Evaluator.ofConfig c.evaluation
    let attempt := launch tree (evaluator.command gold output)
    evaluate c launch tree s =
      (proceed c (treeAfter tree (attempt.map Prod.fst)) s
        (evaluator.outcome (attempt.map Prod.snd))).after
        [.launch (evaluator.command gold output)]
        (evaluator.events gold output (attempt.map Prod.snd)) := by
  intro evaluator attempt
  rw [evaluate, if_pos henabled, hpaths]
  rfl

theorem trace_evaluate (c : Config) (launch : Launcher) (tree : Tree) (s : RunSummary) :
    (evaluate c launch tree s).trace =
      Trace.step (evaluationEffect? c).toList
        (leaving (evaluatedTree c launch tree) id (evaluated c launch tree))
        fun outcome =>
          (summarize c (evaluatedTree c launch tree) (withOutcome s outcome)).trace := by
  unfold evaluationEffect? evaluatedTree evaluated
  by_cases henabled : c.evaluation.enabled = true
  · simp only [if_pos henabled]
    cases hpaths : c.evaluationPaths with
    | error l =>
      rw [evaluate_of_lack henabled hpaths]
      rfl
    | ok paths =>
      obtain ⟨gold, output⟩ := paths
      rw [evaluate_of_paths henabled hpaths]
      simp only [trace_after, proceed]
      cases hout : (Evaluator.ofConfig c.evaluation).outcome
          ((launch tree ((Evaluator.ofConfig c.evaluation).command gold output)).map Prod.snd) with
      | error e => rfl
      | ok outcome =>
        cases outcome with
        | completed report => rfl
        | failed code text =>
          simp only [conclude]
          split
          · rfl
          · rfl
  · rw [evaluate_of_disabled henabled]
    simp only [if_neg henabled]
    rfl

def archiveEffect? (c : Config) (annotated : List Document) : Option Effect :=
  c.corpus.output.map (.writeArchive · annotated)

/-- The files after the archive. -/
def delivered (c : Config) (tree : Tree) (annotated : List Document) :
    Except (RunError × Tree) Tree :=
  match c.corpus.output with
  | none => .ok tree
  | some path => (Corpus.write tree path annotated).mapError fun e => (.output e.fault, e.left)

theorem trace_deliver (c : Config) (launch : Launcher) (tree : Tree) (annotated : List Document)
    (s : RunSummary) :
    (deliver c launch tree annotated s).trace =
      Trace.step (archiveEffect? c annotated).toList (delivered c tree annotated)
        fun tree => (evaluate c launch tree s).trace := by
  unfold deliver archiveEffect? delivered
  cases c.corpus.output with
  | none => rfl
  | some path =>
    cases hwritten : Corpus.write tree path annotated with
    | error e => simp only [hwritten]; rfl
    | ok tree' => simp only [hwritten]; rfl

/-- What is told about an annotation needs no more than its time. -/
theorem summaryEvents_of_annotationTime {m : Metrics} {time : Time.Duration}
    (h : m.annotationTime = .ok time) : ∃ events, m.summaryEvents = .ok events := by
  unfold Metrics.summaryEvents Metrics.throughput
  rw [h]
  exact ⟨_, rfl⟩

theorem summaryEvents_of_annotationTime_error {m : Metrics} {e : Metrics.Error}
    (h : m.annotationTime = .error e) : m.summaryEvents = .error e := by
  unfold Metrics.summaryEvents
  rw [h]
  rfl

theorem trace_account (c : Config) (launch : Launcher) (now : Time.Timestamp) (tree : Tree)
    (m : Metrics) (annotated : List Document) :
    (account c launch now tree m annotated).trace =
      Trace.step [] (leaving tree .metrics m.annotationTime)
        fun time => (deliver c launch tree annotated (summaryOf c now annotated m time)).trace := by
  unfold account
  cases htime : m.annotationTime with
  | error e =>
    rw [summaryEvents_of_annotationTime_error htime]
    rfl
  | ok time =>
    obtain ⟨events, hevents⟩ := summaryEvents_of_annotationTime htime
    rw [hevents]
    rfl

variable {σ : Type}

theorem trace_annotate (c : Config) (launch : Launcher) (now : Time.Timestamp) (a : Annotator σ)
    (state : σ) (tree : Tree) (corpus : Corpus) :
    (annotate c launch now a state tree corpus).1.trace =
      Trace.step
        ((a.annotateCorpus state .empty corpus c.corpus.batchSize).calls.map .annotate)
        (leaving tree .annotator
          (a.annotateCorpus state .empty corpus c.corpus.batchSize).result)
        fun annotated =>
          (account c launch now tree
            (a.annotateCorpus state .empty corpus c.corpus.batchSize).metrics annotated).trace := by
  unfold annotate
  simp only [trace_after]
  cases (a.annotateCorpus state .empty corpus c.corpus.batchSize).result with
  | error e =>
    simp only [trace_stop, Trace.behind, List.append_nil]
    rfl
  | ok annotated => rfl

end Run

theorem Config.trace_run {σ : Type} (c : Config) (launch : Launcher) (now : Time.Timestamp)
    (a : Annotator σ) (state : σ) (tree : Tree) :
    (c.run launch now a state tree).1.trace =
      Trace.step [] (Run.leaving tree .lack c.validate) fun _ =>
        Trace.step [] (Run.leaving tree .corpus (Corpus.read tree c.corpus.path)) fun corpus =>
          (Run.annotate c launch now a state tree corpus).1.trace := by
  unfold Config.run
  cases c.validate with
  | error l => rfl
  | ok =>
    cases Corpus.read tree c.corpus.path with
    | error e => rfl
    | ok corpus => rfl

end CorpusAnnotator
