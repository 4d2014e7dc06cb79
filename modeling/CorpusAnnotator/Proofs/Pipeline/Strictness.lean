import CorpusAnnotator.Annotator.Scripted
import CorpusAnnotator.Proofs.Corpus.Writing
import CorpusAnnotator.Proofs.Pipeline.Outcome
import CorpusAnnotator.Proofs.Summary.Writing

/-! What it means that a run is strict. Two runs that differ in nothing else do the same up to the
end of the evaluator, and beyond it, unless the evaluator ends without success. Then the strict run
stops, and the other one goes on as it would with a report. -/
namespace CorpusAnnotator

open Evaluation (Command Evaluator Exit Launcher Outcome Report)
open Files (Tree)
open Results

variable {σ : Type} {c : Config} {launch : Launcher} {now : Time.Timestamp} {a : Annotator σ}
  {state : σ} {tree tree₀ tree₁ : Tree} {corpus : Corpus} {docs : List Document} {s : RunSummary}
  {command : Command} {exit : Exit}

/-- A configuration that is strict or not, and the same in all else. -/
def Config.withStrict (c : Config) (strict : Bool) : Config :=
  { c with evaluation := { c.evaluation with strict := strict } }

@[simp] theorem Config.enabled_withStrict (c : Config) (strict : Bool) :
    (c.withStrict strict).evaluation.enabled = c.evaluation.enabled := rfl

@[simp] theorem Config.evaluationPaths_withStrict (c : Config) (strict : Bool) :
    (c.withStrict strict).evaluationPaths = c.evaluationPaths := rfl

@[simp] theorem Config.ofConfig_withStrict (c : Config) (strict : Bool) :
    Evaluator.ofConfig (c.withStrict strict).evaluation = Evaluator.ofConfig c.evaluation := rfl

@[simp] theorem Run.evaluationEffect?_withStrict (c : Config) (strict : Bool) :
    evaluationEffect? (c.withStrict strict) = evaluationEffect? c := rfl

@[simp] theorem Run.evaluatedTree_withStrict (c : Config) (strict : Bool) (launch : Launcher)
    (tree : Tree) : evaluatedTree (c.withStrict strict) launch tree = evaluatedTree c launch tree :=
  rfl

/-- A run comes to its evaluator: `docs` are annotated and written to an archive, which leaves the
files `tree₀`, the summary is `s` so far, and `command` is to be started. -/
structure Starts (c : Config) (now : Time.Timestamp) (a : Annotator σ) (state : σ) (tree : Tree)
    (docs : List Document) (s : RunSummary) (tree₀ : Tree) (command : Command) : Prop where
  accounts : Accounts c now a state tree docs s
  delivers : Delivers c tree docs tree₀
  launches : Run.evaluationEffect? c = some (.launch command)

/-! ## Up to the evaluation -/

theorem Annotates.withStrict (h : Annotates c a state tree corpus docs) (strict : Bool) :
    Annotates (c.withStrict strict) a state tree corpus docs :=
  ⟨h.valid, h.read, h.accepted, h.answers⟩

theorem Accounts.withStrict (h : Accounts c now a state tree docs s) (strict : Bool) :
    Accounts (c.withStrict strict) now a state tree docs s := by
  obtain ⟨corpus, time, hannotates, htime, hs⟩ := h
  exact ⟨corpus, time, hannotates.withStrict strict, htime, hs⟩

theorem Delivers.withStrict (h : Delivers c tree docs tree₀) (strict : Bool) :
    Delivers (c.withStrict strict) tree docs tree₀ := by
  cases h with
  | unwanted houtput => exact .unwanted houtput
  | written houtput hwrite => exact .written houtput hwrite

/-- What a run does before the evaluation is the same with every evaluator, strict or not. -/
theorem Config.exists_trace_run_withStrict (haccounts : Accounts c now a state tree docs s)
    (hdelivers : Delivers c tree docs tree₀) :
    ∃ earlier, ∀ strict launch, ((c.withStrict strict).run launch now a state tree).1.trace =
      (Run.evaluate (c.withStrict strict) launch tree₀ s).trace.behind earlier := by
  obtain ⟨corpus, time, hannotates, htime, rfl⟩ := haccounts
  let pass := a.annotateCorpus state .empty corpus c.corpus.batchSize
  refine ⟨pass.calls.map .annotate ++ (Run.archiveEffect? c docs).toList, ?_⟩
  intro strict launch
  have htime' : (a.annotateCorpus state .empty corpus
      (c.withStrict strict).corpus.batchSize).metrics.annotationTime = .ok time := htime
  have hdelivered : Run.delivered (c.withStrict strict) tree docs = .ok tree₀ :=
    Run.delivered_eq_ok_iff.mpr (hdelivers.withStrict strict)
  rw [trace_run_of_annotates launch now (hannotates.withStrict strict), Run.trace_account, htime',
    Run.leaving_ok, Trace.step_ok, Trace.behind_nil, Run.trace_deliver, hdelivered, Trace.step_ok,
    Trace.behind_behind]
  rfl

/-- Runs that come to the same end of the evaluation are the same, strict or not. -/
theorem Config.run_withStrict_congr {strict strict' : Bool}
    (h : ∀ docs s tree₀, Accounts c now a state tree docs s → Delivers c tree docs tree₀ →
      Run.evaluate (c.withStrict strict) launch tree₀ s =
        Run.evaluate (c.withStrict strict') launch tree₀ s) :
    (c.withStrict strict).run launch now a state tree =
      (c.withStrict strict').run launch now a state tree := by
  refine run_congr (c := c.withStrict strict') rfl rfl ?_
  intro docs s tree₀ haccounts hdelivers
  -- with its own strictness given back, either configuration is `c`
  exact h docs s tree₀ (haccounts.withStrict c.evaluation.strict)
    (hdelivers.withStrict c.evaluation.strict)

/-- The annotator does not notice. -/
theorem Config.state_run_withStrict (c : Config) (launch : Launcher) (now : Time.Timestamp)
    (a : Annotator σ) (state : σ) (tree : Tree) (strict : Bool) :
    ((c.withStrict strict).run launch now a state tree).2 =
      (c.run launch now a state tree).2 := by
  have hvalidate : (c.withStrict strict).validate = c.validate := rfl
  have hcorpus : (c.withStrict strict).corpus = c.corpus := rfl
  unfold run
  rw [hvalidate, hcorpus]
  cases c.validate with
  | error l => rfl
  | ok =>
    cases Corpus.read tree c.corpus.path with
    | error e => rfl
    | ok corpus => rfl

/-! ## The evaluator -/

namespace Run

theorem filter_effects_evaluate (c : Config) (launch : Launcher) (tree : Tree) (s : RunSummary) :
    (evaluate c launch tree s).trace.effects.filter (·.stage < 3) =
      (evaluationEffect? c).toList := by
  have hself : (evaluationEffect? c).toList.filter (·.stage < 3) =
      (evaluationEffect? c).toList := by
    apply List.filter_eq_self.mpr
    intro e he
    obtain ⟨-, gold, output, -, rfl⟩ := evaluationEffect?_eq_some (Option.mem_toList.mp he)
    rfl
  rw [trace_evaluate]
  cases evaluated c launch tree with
  | error e => exact hself
  | ok outcome =>
    -- what is left to do is to write the summary
    have hlate := (ordered_summarize c (evaluatedTree c launch tree) (withOutcome s outcome)).late
    show List.filter _ (_ ++ _) = _
    rw [List.filter_append, hself, List.append_right_eq_self, List.filter_eq_nil_iff]
    intro e he
    have hstage := hlate e he
    simp only [decide_eq_true_eq]
    omega

/-- Unless the evaluator ends without success, strictness does not matter. -/
theorem evaluate_withStrict_congr
    (h : ∀ command tree₁ exit, evaluationEffect? c = some (.launch command) →
      launch tree command = .ok (tree₁, exit) → exit.code = some 0) (strict strict' : Bool) :
    evaluate (c.withStrict strict) launch tree s =
      evaluate (c.withStrict strict') launch tree s := by
  by_cases henabled : c.evaluation.enabled = true
  · cases hpaths : c.evaluationPaths with
    | error l =>
      rw [evaluate_of_lack (c := c.withStrict strict) henabled hpaths,
        evaluate_of_lack (c := c.withStrict strict') henabled hpaths]
    | ok paths =>
      obtain ⟨gold, output⟩ := paths
      rw [evaluate_of_paths (c := c.withStrict strict) henabled hpaths,
        evaluate_of_paths (c := c.withStrict strict') henabled hpaths]
      simp only [Config.ofConfig_withStrict]
      have heffect := evaluationEffect?_of_paths henabled hpaths
      cases hlaunch : launch tree ((Evaluator.ofConfig c.evaluation).command gold output) with
      | error error => rfl
      | ok ended =>
        obtain ⟨tree₁, exit⟩ := ended
        simp only [map_ok]
        cases hout : (Evaluator.ofConfig c.evaluation).outcome (.ok exit) with
        | error error => rfl
        | ok outcome =>
          obtain ⟨exit', hexit, ⟨-, report, -, rfl⟩ | ⟨hcode, -⟩⟩ := outcome_eq_ok_iff.mp hout
          · rfl
          · cases hexit
            exact absurd (h _ _ _ heffect hlaunch) hcode
  · rw [evaluate_of_disabled (c := c.withStrict strict) henabled,
      evaluate_of_disabled (c := c.withStrict strict') henabled]
    rfl

theorem evaluatedTree_of_launch (heffect : evaluationEffect? c = some (.launch command))
    (hlaunch : launch tree command = .ok (tree₁, exit)) : evaluatedTree c launch tree = tree₁ := by
  obtain ⟨henabled, gold, output, hpaths, hcommand⟩ := evaluationEffect?_eq_some heffect
  cases hcommand
  simp only [evaluatedTree, henabled, if_true, hpaths, hlaunch, map_ok, treeAfter]

/-- An end without success is an error of a strict run. -/
theorem evaluated_strict (heffect : evaluationEffect? c = some (.launch command))
    (hlaunch : launch tree command = .ok (tree₁, exit)) (hcode : exit.code ≠ some 0) :
    evaluated (c.withStrict true) launch tree = .error (.evaluator exit.code) := by
  obtain ⟨henabled, gold, output, hpaths, hcommand⟩ := evaluationEffect?_eq_some heffect
  cases hcommand
  have hout : (Evaluator.ofConfig c.evaluation).outcome (.ok exit) =
      .ok (.failed exit.code exit.text) :=
    outcome_eq_ok_iff.mpr ⟨exit, rfl, .inr ⟨hcode, rfl⟩⟩
  unfold evaluated
  simp only [Config.enabled_withStrict, Config.evaluationPaths_withStrict,
    Config.ofConfig_withStrict, henabled, if_true, hpaths, hlaunch, map_ok, hout]
  rfl

/-- An evaluation that goes well is followed by the summary. -/
theorem trace_evaluate_of_evaluates {outcome : Outcome}
    (heffect : evaluationEffect? c = some (.launch command))
    (h : Evaluates c launch tree tree₁ (some outcome)) :
    (evaluate c launch tree s).trace =
      (summarize c tree₁ { s with evaluation := some outcome }).trace.behind [.launch command] := by
  obtain ⟨houtcome, rfl⟩ := evaluated_of_evaluates h
  rw [trace_evaluate, heffect, houtcome, leaving_ok, Trace.step_ok]
  rfl

/-- An end without success is the end of a strict run. -/
theorem trace_evaluate_strict (heffect : evaluationEffect? c = some (.launch command))
    (hlaunch : launch tree command = .ok (tree₁, exit)) (hcode : exit.code ≠ some 0) :
    (evaluate (c.withStrict true) launch tree s).trace =
      ⟨tree₁, [.launch command], .error (.evaluator exit.code)⟩ := by
  rw [trace_evaluate, evaluationEffect?_withStrict, heffect, evaluatedTree_withStrict,
    evaluatedTree_of_launch heffect hlaunch, evaluated_strict heffect hlaunch hcode]
  rfl

end Run

/-! ## Two runs -/

namespace Config

/-- Runs that differ in strictness alone ask the annotator the same, write the same archive and
start the same evaluator. -/
theorem filter_effects_run_withStrict (c : Config) (launch : Launcher) (now : Time.Timestamp)
    (a : Annotator σ) (state : σ) (tree : Tree) (strict strict' : Bool) :
    ((c.withStrict strict).run launch now a state tree).1.effects.filter (·.stage < 3) =
      ((c.withStrict strict').run launch now a state tree).1.effects.filter (·.stage < 3) := by
  by_cases h : ∃ docs s tree₀, Accounts c now a state tree docs s ∧ Delivers c tree docs tree₀
  · obtain ⟨docs, s, tree₀, haccounts, hdelivers⟩ := h
    obtain ⟨earlier, htrace⟩ := exists_trace_run_withStrict haccounts hdelivers
    have heffects : ∀ strict,
        ((c.withStrict strict).run launch now a state tree).1.effects.filter (·.stage < 3) =
          earlier.filter (·.stage < 3) ++ (Run.evaluationEffect? c).toList := by
      intro strict
      show (Trace.effects (Run.trace _)).filter _ = _
      rw [htrace strict launch]
      show List.filter _ (earlier ++ _) = _
      rw [List.filter_append, Run.filter_effects_evaluate]
      rfl
    rw [heffects strict, heffects strict']
  · -- neither of them comes to the evaluation
    have hsame : (c.withStrict strict).run launch now a state tree =
        (c.withStrict strict').run launch now a state tree :=
      run_withStrict_congr fun docs s tree₀ haccounts hdelivers =>
        absurd ⟨docs, s, tree₀, haccounts, hdelivers⟩ h
    rw [hsame]

theorem launch_mem_effects_run_withStrict (strict : Bool) :
    .launch command ∈ ((c.withStrict strict).run launch now a state tree).1.effects ↔
      ∃ docs s tree₀, Starts c now a state tree docs s tree₀ command := by
  rw [launch_mem_effects_run]
  constructor
  · rintro ⟨heffect, docs, s, tree₀, haccounts, hdelivers⟩
    exact ⟨docs, s, tree₀, haccounts.withStrict c.evaluation.strict,
      hdelivers.withStrict c.evaluation.strict, heffect⟩
  · rintro ⟨docs, s, tree₀, haccounts, hdelivers, heffect⟩
    exact ⟨heffect, docs, s, tree₀, haccounts.withStrict strict, hdelivers.withStrict strict⟩

/-- Where the evaluator ends without success, a strict run is over. A run in which an evaluation
goes well does all that the strict one has done, and then writes the summary. -/
theorem exists_trace_run_of_failed (h : Starts c now a state tree docs s tree₀ command)
    (hlaunch : launch tree₀ command = .ok (tree₁, exit)) (hcode : exit.code ≠ some 0) :
    ∃ earlier, ((c.withStrict true).run launch now a state tree).1.trace =
        ⟨tree₁, earlier ++ [.launch command], .error (.evaluator exit.code)⟩ ∧
      ∀ strict launch' outcome, Evaluates (c.withStrict strict) launch' tree₀ tree₁ (some outcome) →
        ((c.withStrict strict).run launch' now a state tree).1.trace =
          (Run.summarize c tree₁ { s with evaluation := some outcome }).trace.behind
            (earlier ++ [.launch command]) := by
  obtain ⟨earlier, htrace⟩ := exists_trace_run_withStrict h.accounts h.delivers
  refine ⟨earlier, ?_, ?_⟩
  · rw [htrace true launch, Run.trace_evaluate_strict h.launches hlaunch hcode]
    rfl
  · intro strict launch' outcome hevaluates
    rw [htrace strict launch',
      Run.trace_evaluate_of_evaluates (c := c.withStrict strict) h.launches hevaluates,
      Trace.behind_behind]
    rfl

/-- Strictness matters only where an evaluator ends without success. The annotator is asked the
same, the same archive is written and the same evaluator is started in any case, and if the
evaluator is not wanted, cannot be started or ends with success, all is the same. Else the strict
run stops behind the archive, and the other one goes on with the exit code and both streams of the
evaluator where it would have had a report. -/
theorem run_strict_stops_only_at_evaluator (c : Config) (launch : Launcher)
    (now : Time.Timestamp) (a : Annotator σ) (state : σ) (tree : Tree) :
    let run (strict : Bool) := (c.withStrict strict).run launch now a state tree
    (∀ strict command, .launch command ∈ (run strict).1.effects ↔
      ∃ docs s tree₀, Starts c now a state tree docs s tree₀ command) ∧
    (run true).2 = (run false).2 ∧
    (run true).1.effects.filter (·.stage < 3) = (run false).1.effects.filter (·.stage < 3) ∧
    ((∀ docs s tree₀ command tree₁ exit, Starts c now a state tree docs s tree₀ command →
      launch tree₀ command = .ok (tree₁, exit) → exit.code = some 0) → run true = run false) ∧
    ∀ docs s tree₀ command tree₁ exit, Starts c now a state tree docs s tree₀ command →
      launch tree₀ command = .ok (tree₁, exit) → exit.code ≠ some 0 →
      let stopped := (run true).1
      let text := Text.Utf8.decodeLenient exit.output ++ Text.Utf8.decodeLenient exit.errors
      let goesOn (outcome : Outcome) :=
        (Run.summarize c tree₁ { s with evaluation := some outcome }).trace.behind stopped.effects
      stopped.result = .error (.evaluator exit.code) ∧ stopped.tree = tree₁ ∧
      (∃ path, .writeArchive path docs ∈ stopped.effects ∧
        Corpus.write tree path docs = .ok tree₀) ∧
      (∀ path s', .writeSummary path s' ∉ stopped.effects) ∧
      (run false).1.trace = goesOn (.failed exit.code (String.ofList text)) ∧
      ∀ launch' exit' report, launch' tree₀ command = .ok (tree₁, exit') → exit'.code = some 0 →
        Report.read exit'.text c.evaluation.metric = .ok report →
        ∀ strict, ((c.withStrict strict).run launch' now a state tree).1.trace =
          goesOn (.completed report) := by
  intro run
  refine ⟨fun strict command => launch_mem_effects_run_withStrict strict, ?_,
    filter_effects_run_withStrict c launch now a state tree true false, ?_, ?_⟩
  · exact (state_run_withStrict c launch now a state tree true).trans
      (state_run_withStrict c launch now a state tree false).symm
  · intro h
    apply run_withStrict_congr
    intro docs s tree₀ haccounts hdelivers
    apply Run.evaluate_withStrict_congr
    intro command tree₁ exit heffect
    exact h docs s tree₀ command tree₁ exit ⟨haccounts, hdelivers, heffect⟩
  · intro docs s tree₀ command tree₁ exit hstarts hlaunch hcode stopped text goesOn
    obtain ⟨henabled, gold, path, hpaths, hcommand⟩ :=
      Run.evaluationEffect?_eq_some hstarts.launches
    have houtput := output_of_evaluationPaths hpaths
    obtain ⟨earlier, hstopped, hgoes⟩ := exists_trace_run_of_failed hstarts hlaunch hcode
    have heffects : stopped.effects = earlier ++ [.launch command] :=
      congrArg Trace.effects hstopped
    rw [← heffects] at hgoes
    cases hcommand
    refine ⟨congrArg Trace.result hstopped, congrArg Trace.tree hstopped, ?_, ?_, ?_, ?_⟩
    · exact ⟨path,
        writeArchive_mem_effects_run.mpr ⟨houtput, s, hstarts.accounts.withStrict true⟩,
        hstarts.delivers.write houtput⟩
    · intro path' s'
      have hordered : stopped.effects.Pairwise Effect.Before :=
        pairwise_effects_run (c.withStrict true) launch now a state tree
      rw [heffects] at hordered ⊢
      exact Effect.writeSummary_notMem hordered
    · exact hgoes false launch _ (.failed henabled hpaths hlaunch hcode rfl)
    · intro launch' exit' report hlaunch' hcode' hreport strict
      exact hgoes strict launch' _ (.completed henabled hpaths hlaunch' hcode' hreport)

/-- An evaluator that fails with a letter on each stream, in a run that wants a summary. -/
theorem run_strict_stops_only_at_evaluator_failing :
    let c : Config :=
      { Config.standard with
        model := { Config.standard.model with input := "m" }
        corpus := { path := "a", batchSize := 1, output := some "b" }
        evaluation := { Config.standard.evaluation with enabled := true, gold := some "g" }
        summary := some "s" }
    let tree : Tree := ⟨[(⟨.above 0, ["a"]⟩, .file [1] false)]⟩
    let launch : Launcher := fun tree _ =>
      .ok (tree, ⟨some 2, String.utf8EncodeChar 'x', String.utf8EncodeChar 'y'⟩)
    let now : Time.Timestamp := ⟨⟨1970, 1, 1⟩, 0, 0⟩
    let a := Annotator.scripted ⟨"parser", .reverse, none, "", []⟩
    let run (strict : Bool) := ((c.withStrict strict).run launch now a 0 tree).1
    (run true).result = .error (.evaluator (some 2)) ∧
      (∀ path s, .writeSummary path s ∉ (run true).effects) ∧
      ∃ s, (run false).result = .ok s ∧ s.evaluation = some (.failed (some 2) "xy") ∧
        .writeSummary "s" s ∈ (run false).effects := by
  intro c tree launch now a run
  obtain ⟨-, -, -, -, hfailing⟩ := run_strict_stops_only_at_evaluator c launch now a 0 tree
  have hread : Corpus.read tree "a" = .ok ⟨"a", [[1]]⟩ := rfl
  have hannotates : Annotates c a 0 tree ⟨"a", [[1]]⟩ [[1]] :=
    ⟨rfl, hread, by decide, by decide⟩
  have hchunks : chunks 1 [[1]] = [[[(1 : UInt8)]]] := chunks_eq_map_chunk Nat.one_ne_zero _
  have htime : (a.annotateCorpus 0 .empty ⟨"a", [[1]]⟩ 1).metrics.annotationTime = .ok ⟨0⟩ := by
    rw [Annotator.annotateCorpus, if_neg Nat.one_ne_zero, hchunks]
    rfl
  let written : Tree := ⟨[(⟨.above 0, ["a"]⟩, .file [1] false),
    (⟨.above 0, ["b"]⟩, .file (Corpus.archiveOf [[1]]) false)]⟩
  have hwrite : Corpus.write tree "b" [[1]] = .ok written :=
    Corpus.write_eq_ok_iff.mpr ⟨rfl, by decide, by decide +kernel⟩
  have hbatches : (a.annotateCorpus 0 .empty ⟨"a", [[1]]⟩ 1).metrics.batches = 1 :=
    hannotates.batches_eq.trans (by decide)
  let s : RunSummary := ⟨now, "a", 1, 1, (⟨0⟩ : Time.Duration).seconds, some "b", none⟩
  have haccounts : Accounts c now a 0 tree [[1]] s := by
    refine ⟨_, _, hannotates, htime, ?_⟩
    rw [Run.summaryOf, hbatches]
    rfl
  obtain ⟨hresult, -, -, hsummary, htrace, -⟩ := hfailing _ _ _ _ _ _
    ⟨haccounts, .written rfl hwrite, rfl⟩ rfl (by decide)
  -- the summary of the run that goes on finds room in its file
  let exit : Exit := ⟨some 2, String.utf8EncodeChar 'x', String.utf8EncodeChar 'y'⟩
  let s' : RunSummary := { s with evaluation := some (.failed (some 2) exit.text) }
  have hends : (run false).result = .ok s' := by
    rw [← Run.result_trace, htrace]
    exact (Trace.ends_behind.mpr (Run.ends_summarize.mpr ⟨rfl, .written rfl
      (RunSummary.write_eq_ok_iff.mpr ⟨rfl, by decide +kernel⟩)⟩)).1
  refine ⟨hresult, hsummary, s', hends, rfl, ?_⟩
  rw [← Run.effects_trace, htrace]
  exact Trace.mem_effects_behind.mpr (.inr (Run.mem_effects_summarize.mpr rfl))

end Config

end CorpusAnnotator
