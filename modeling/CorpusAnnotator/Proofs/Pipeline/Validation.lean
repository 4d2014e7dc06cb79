import CorpusAnnotator.Proofs.Pipeline.Failing

/-! What the check of a configuration spares a run: every error that is about the configuration is
one of the check, so a run behind the check does not end with one. -/
namespace CorpusAnnotator

open Evaluation (Evaluator Launcher)
open Files (Tree)
open Results

variable {σ : Type} {c : Config} {launch : Launcher} {now : Time.Timestamp} {a : Annotator σ}
  {state : σ} {tree tree' : Tree}

/-! ## Errors -/

/-- Of its calls the annotator does not say that their batches have no size. -/
theorem Calls.complaint_ne_zeroBatchSize (calls : Calls σ) (k : Nat) :
    calls.complaint k ≠ .zeroBatchSize := by
  unfold complaint
  split <;> exact nofun

/-- What a run lacks has been found by the check. -/
theorem Fails.validate_eq {l : Config.Lack} (h : Fails c launch now a state tree (.lack l) tree') :
    c.validate = .error l := by
  cases h with
  | lack hlack => exact hlack
  | unevaluated _ _ hmisevaluates => cases hmisevaluates

/-- An annotation ends with what is said about the first call that is not accepted. -/
theorem Fails.exists_stopsAt {error : AnnotationError}
    (h : Fails c launch now a state tree (.annotator error) tree') :
    ∃ corpus k, StopsAt c a state tree corpus k ∧
      error = (a.callsOn state corpus c.corpus.batchSize).complaint k := by
  cases h with
  | unannotated hstops => exact ⟨_, _, hstops, rfl⟩
  | unevaluated _ _ hmisevaluates => cases hmisevaluates

/-! ## After the check -/

theorem Config.ne_empty_of_evaluationPaths {gold output : String} (hcleared : c.Cleared)
    (h : c.evaluationPaths = .ok (gold, output)) : gold ≠ "" ∧ output ≠ "" := by
  unfold evaluationPaths at h
  split at h
  · cases h
  · cases h
  · next houtput hgold =>
    cases h
    exact ⟨fun hempty => hcleared.gold (hempty ▸ hgold),
      fun hempty => hcleared.output (hempty ▸ houtput)⟩

theorem Config.not_lack_of_validate (h : c.validate = .ok ()) (l : Lack) :
    (c.run launch now a state tree).1.result ≠ .error (.lack l) := by
  intro hresult
  cases h.symm.trans (fails_of_run ⟨hresult, rfl⟩).validate_eq

theorem Config.not_zeroBatchSize (launch : Launcher) (now : Time.Timestamp) (a : Annotator σ)
    (state : σ) (tree : Tree) :
    (c.run launch now a state tree).1.result ≠ .error (.annotator .zeroBatchSize) := by
  intro hresult
  obtain ⟨corpus, k, -, hcomplaint⟩ := (fails_of_run ⟨hresult, rfl⟩).exists_stopsAt
  exact Calls.complaint_ne_zeroBatchSize _ k hcomplaint.symm

/-- A loaded configuration passes the check if the model directory and the corpus are named, both
numbers are positive, and what is to be compared is named where an evaluation is wanted; and then no
run of it fails for the configuration any more. Batches can be made of every corpus, the evaluation
has its two paths, and no evaluator is started with an empty one. -/
theorem Config.validate_rules_out_later_lacks {path : Option String} {o : Overrides}
    {environment : List (String × String)} (h : load tree path o environment = .ok c) :
    (c.validate = .ok () ↔
      c.model.input ≠ "" ∧ c.corpus.path ≠ "" ∧ 1 ≤ c.model.threads ∧ 1 ≤ c.corpus.batchSize ∧
        (c.evaluation.enabled = true →
          (∃ output, c.corpus.output = some output) ∧ ∃ gold, c.evaluation.gold = some gold)) ∧
    (c.corpus.output ≠ some "" ∧ c.evaluation.gold ≠ some "") ∧
    (c.validate = .ok () →
      (∀ corpus : Corpus, ∃ batches, corpus.batches c.corpus.batchSize = .ok batches) ∧
      (c.evaluation.enabled = true → ∃ gold output,
        c.evaluationPaths = .ok (gold, output) ∧ gold ≠ "" ∧ output ≠ "") ∧
      ∀ (σ : Type) (launch : Launcher) (now : Time.Timestamp) (a : Annotator σ) (state : σ)
        (files : Tree), let run := (c.run launch now a state files).1
        run.result ≠ .error (.annotator .zeroBatchSize) ∧
        (∀ l, run.result ≠ .error (.lack l)) ∧
        ∀ command, .launch command ∈ run.effects → ∃ gold output, gold ≠ "" ∧ output ≠ "" ∧
          command = (Evaluator.ofConfig c.evaluation).command gold output) := by
  have hcleared := cleared_of_load h
  refine ⟨?_, ⟨hcleared.output, hcleared.gold⟩, fun hvalid => ⟨fun corpus => ?_,
    fun henabled => ?_, fun σ launch now a state files =>
      ⟨not_zeroBatchSize launch now a state files, not_lack_of_validate hvalid,
        fun command hcommand => ?_⟩⟩⟩
  · rw [validate_eq_ok_iff]
    exact ⟨fun h => ⟨h.input, h.path, h.threads, h.batchSize, h.compared⟩,
      fun ⟨hinput, hpath, hthreads, hsize, hcompared⟩ =>
        ⟨hinput, hpath, hthreads, hsize, hcompared⟩⟩
  · exact ⟨_, if_neg (batchSize_ne_zero_of_validate hvalid)⟩
  · obtain ⟨gold, output, hpaths⟩ := exists_paths_of_validate hvalid henabled
    exact ⟨gold, output, hpaths, ne_empty_of_evaluationPaths hcleared hpaths⟩
  · obtain ⟨heffect, -⟩ := launch_mem_effects_run.mp hcommand
    obtain ⟨-, gold, output, hpaths, hlaunch⟩ := Run.evaluationEffect?_eq_some heffect
    obtain ⟨hgold, houtput⟩ := ne_empty_of_evaluationPaths hcleared hpaths
    exact ⟨gold, output, hgold, houtput, Effect.launch.inj hlaunch⟩

/-- With a gold corpus from the environment, and with an empty one in its place from the command
line. -/
theorem Config.validate_rules_out_later_lacks_two :
    let o := { Overrides.none with
      input := some "m", corpus := some "a", output := some "b", evaluate := true }
    let environment := [("SEMPAR__EVALUATION__GOLD", "g")]
    let c : Config := { standard with
      model := { standard.model with input := "m" }
      corpus := { standard.corpus with path := "a", output := some "b" }
      evaluation := { standard.evaluation with enabled := true } }
    (load .empty none o environment =
        .ok { c with evaluation := { c.evaluation with gold := some "g" } } ∧
      Config.validate { c with evaluation := { c.evaluation with gold := some "g" } } = .ok ()) ∧
    load .empty none { o with gold := some "" } environment = .ok c ∧ c.validate ≠ .ok () := by
  intro o environment c
  have hnamed : load .empty none o environment =
      .ok { c with evaluation := { c.evaluation with gold := some "g" } } :=
    eq_ok_of_toOption (by decide +kernel)
  have hcleared : load .empty none { o with gold := some "" } environment = .ok c :=
    eq_ok_of_toOption (by decide +kernel)
  refine ⟨⟨hnamed, (validate_rules_out_later_lacks hnamed).1.mpr ?_⟩, hcleared, fun hvalid => ?_⟩
  · exact ⟨by decide, by decide, by decide, by decide, fun _ => ⟨⟨"b", rfl⟩, "g", rfl⟩⟩
  · obtain ⟨-, -, -, -, hcompared⟩ := (validate_rules_out_later_lacks hcleared).1.mp hvalid
    obtain ⟨-, gold, hgold⟩ := hcompared rfl
    cases hgold

end CorpusAnnotator
