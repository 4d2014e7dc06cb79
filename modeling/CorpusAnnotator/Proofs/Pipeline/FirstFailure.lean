import CorpusAnnotator.Annotator.Scripted
import CorpusAnnotator.Proofs.Pipeline.Failing

/-! A run stops at its first failure. What failed early leaves no trace in the files, the evaluator
sees a complete archive, and only a run in which all went well succeeds. -/
namespace CorpusAnnotator

open Evaluation (Command Evaluator Launcher)
open Files (Tree)
open Results

variable {σ : Type} {c : Config} {launch launch' : Launcher} {now : Time.Timestamp}
  {a : Annotator σ} {state : σ} {tree tree' : Tree} {corpus : Corpus} {docs : List Document}
  {s : RunSummary} {command : Command}

/-! ## Before the archive -/

/-- Without a corpus the annotator is not asked. -/
theorem Config.run_of_unread
    (h : ¬ ∃ corpus, c.validate = .ok () ∧ Corpus.read tree c.corpus.path = .ok corpus) :
    (c.run launch now a state tree).1.effects = [] ∧
      (c.run launch now a state tree).1.tree = tree ∧
      (c.run launch now a state tree).2 = state := by
  unfold Config.run
  cases hvalid : c.validate with
  | error l => exact ⟨rfl, rfl, rfl⟩
  | ok =>
    cases hread : Corpus.read tree c.corpus.path with
    | error e => exact ⟨rfl, rfl, rfl⟩
    | ok corpus => exact absurd ⟨corpus, hvalid, hread⟩ h

/-- Without all annotations nothing is done but asking the annotator. -/
theorem Config.run_of_not_annotates (h : ¬ ∃ corpus docs, Annotates c a state tree corpus docs) :
    (c.run launch now a state tree).1.tree = tree ∧
      ∀ e ∈ (c.run launch now a state tree).1.effects, ∃ batch, e = .annotate batch := by
  have haccounts : ∀ docs s, ¬ Accounts c now a state tree docs s := by
    rintro docs s ⟨corpus, time, hannotates, -⟩
    exact h ⟨corpus, docs, hannotates⟩
  obtain ⟨calls, e, htrace⟩ := trace_run_of_not_accounts launch haccounts
  refine ⟨congrArg Trace.tree htrace, ?_⟩
  intro e he
  have heffects : (c.run launch now a state tree).1.effects = calls.map .annotate :=
    congrArg Trace.effects htrace
  rw [heffects] at he
  obtain ⟨batch, -, rfl⟩ := List.mem_map.mp he
  exact ⟨batch, rfl⟩

theorem Run.calls_of_effects {batches : List (List Document)} {later : List Effect} {r : Run}
    (h : r.effects = batches.map .annotate ++ later) (hlater : ∀ e ∈ later, 1 ≤ e.stage) :
    r.calls = batches := by
  rw [Run.calls, h, List.filterMap_append, List.filterMap_map]
  show batches.filterMap some ++ _ = _
  rw [List.filterMap_some, List.append_right_eq_self, List.filterMap_eq_nil_iff]
  intro e he
  cases e with
  | annotate batch => exact absurd (hlater _ he) (Nat.not_succ_le_zero 0)
  | _ => rfl

/-- The batches that a run annotates are all batches of the corpus. -/
theorem Config.calls_run (h : Annotates c a state tree corpus docs) :
    (c.run launch now a state tree).1.calls =
      (List.range (Annotator.callCount corpus c.corpus.batchSize)).map
        (chunk c.corpus.batchSize corpus.documents) := by
  obtain ⟨-, hcalls⟩ := h.pass .empty
  -- what comes after the annotation belongs to later stages, so it adds no calls
  rw [← hcalls]
  exact Run.calls_of_effects (congrArg Trace.effects (trace_run_of_annotates launch now h))
    (Run.ordered_account c launch now tree _ docs).late

/-! ## The evaluator -/

/-- The evaluator sees only the files that are there when it is started. -/
theorem Run.evaluate_congr (heffect : evaluationEffect? c = some (.launch command))
    (h : launch' tree command = launch tree command) :
    evaluate c launch' tree s = evaluate c launch tree s := by
  obtain ⟨henabled, gold, output, hpaths, hcommand⟩ := evaluationEffect?_eq_some heffect
  cases hcommand
  rw [evaluate_of_paths henabled hpaths, evaluate_of_paths henabled hpaths, h]

/-- An evaluator is started exactly when one is wanted and the archive is written. It is started
only if an archive is wanted, too: that is how a configuration is checked. -/
theorem Config.exists_launch_iff :
    (∃ command, .launch command ∈ (c.run launch now a state tree).1.effects) ↔
      c.evaluation.enabled = true ∧ ∃ path docs tree',
        .writeArchive path docs ∈ (c.run launch now a state tree).1.effects ∧
        Corpus.write tree path docs = .ok tree' := by
  constructor
  · rintro ⟨command, hlaunch⟩
    obtain ⟨heffect, docs, s, tree₁, haccounts, hdelivers⟩ := launch_mem_effects_run.mp hlaunch
    obtain ⟨henabled, gold, path, hpaths, -⟩ := Run.evaluationEffect?_eq_some heffect
    have houtput := output_of_evaluationPaths hpaths
    exact ⟨henabled, path, docs, tree₁, writeArchive_mem_effects_run.mpr ⟨houtput, s, haccounts⟩,
      hdelivers.write houtput⟩
  · -- a checked configuration has the paths that an evaluation needs
    rintro ⟨henabled, path, docs, tree₁, harchive, hwrite⟩
    obtain ⟨houtput, s, haccounts⟩ := writeArchive_mem_effects_run.mp harchive
    obtain ⟨corpus, -, hannotates, -⟩ := id haccounts
    obtain ⟨gold, output, hpaths⟩ := exists_paths_of_validate hannotates.valid henabled
    exact ⟨_, launch_mem_effects_run.mpr ⟨Run.evaluationEffect?_of_paths henabled hpaths,
      docs, s, tree₁, haccounts, .written houtput hwrite⟩⟩

/-- What the evaluator finds: the archive of all annotated documents, at the path that it is given.
Nothing else of the evaluator matters for the run. -/
theorem Config.exists_archive_of_launch
    (h : .launch command ∈ (c.run launch now a state tree).1.effects) :
    ∃ path docs tree', .writeArchive path docs ∈ (c.run launch now a state tree).1.effects ∧
      tree'.read path = .ok (Corpus.archiveOf docs) ∧
      "--test_documents=" ++ path ∈ command.arguments ∧
      ∀ launch' : Launcher, launch' tree' command = launch tree' command →
        c.run launch' now a state tree = c.run launch now a state tree := by
  obtain ⟨heffect, docs, s, tree₁, haccounts, hdelivers⟩ := launch_mem_effects_run.mp h
  obtain ⟨henabled, gold, path, hpaths, hcommand⟩ := Run.evaluationEffect?_eq_some heffect
  have houtput := output_of_evaluationPaths hpaths
  refine ⟨path, docs, tree₁, writeArchive_mem_effects_run.mpr ⟨houtput, s, haccounts⟩,
    Corpus.read_write (hdelivers.write houtput), ?_, ?_⟩
  · cases hcommand
    exact List.mem_cons_of_mem _ List.mem_cons_self
  · intro launch' hlaunch
    apply run_congr rfl rfl
    intro docs' s' tree' haccounts' hdelivers'
    obtain ⟨rfl, rfl⟩ := haccounts.unique haccounts'
    obtain rfl := hdelivers.unique hdelivers'
    exact Run.evaluate_congr heffect hlaunch

/-! ## The whole run -/

/-- What a run does comes in one order, and nothing comes after a failure. Where the configuration
makes no sense or the corpus cannot be read, nothing is done at all; where an answer of the
annotator is bad, no file is touched, and the annotator is not asked again. The archive is that of
all annotated documents. The evaluator is started exactly when it is wanted and the archive is
complete, and it finds that archive. The summary is written exactly when it is wanted and all before
it went well. The run succeeds exactly when all that is wanted goes well, and otherwise fails at a
stage that finds the files as the stages before have left them; a write that fails can have begun
its own file, and touches no other. -/
theorem Config.run_stops_at_first_failure (c : Config) (launch : Launcher) (now : Time.Timestamp)
    (a : Annotator σ) (state : σ) (tree : Tree) :
    let r := c.run launch now a state tree
    r.1.effects.Pairwise Effect.Before ∧
    ((¬ ∃ corpus, c.validate = .ok () ∧ Corpus.read tree c.corpus.path = .ok corpus) →
      r.1.effects = [] ∧ r.1.tree = tree ∧ r.2 = state) ∧
    ((¬ ∃ corpus docs, Annotates c a state tree corpus docs) →
      r.1.tree = tree ∧ ∀ e ∈ r.1.effects, ∃ batch, e = .annotate batch) ∧
    (∀ corpus docs, Annotates c a state tree corpus docs →
      r.1.calls = (List.range (Annotator.callCount corpus c.corpus.batchSize)).map
        (chunk c.corpus.batchSize corpus.documents)) ∧
    (∀ path docs, .writeArchive path docs ∈ r.1.effects ↔
      c.corpus.output = some path ∧ ∃ s, Accounts c now a state tree docs s) ∧
    ((∃ command, .launch command ∈ r.1.effects) ↔
      c.evaluation.enabled = true ∧ ∃ path docs tree', .writeArchive path docs ∈ r.1.effects ∧
        Corpus.write tree path docs = .ok tree') ∧
    (∀ command, .launch command ∈ r.1.effects →
      ∃ path docs tree', .writeArchive path docs ∈ r.1.effects ∧
        tree'.read path = .ok (Corpus.archiveOf docs) ∧
        "--test_documents=" ++ path ∈ command.arguments ∧
        ∀ launch' : Launcher, launch' tree' command = launch tree' command →
          c.run launch' now a state tree = r) ∧
    (∀ path s, .writeSummary path s ∈ r.1.effects ↔
      c.summary = some path ∧ ∃ tree', Prepares c launch now a state tree tree' s) ∧
    (∀ s tree', r.1.result = .ok s ∧ r.1.tree = tree' ↔
      ∃ tree₁, Prepares c launch now a state tree tree₁ s ∧ Summarizes c tree₁ s tree') ∧
    (∀ e tree', r.1.result = .error e ∧ r.1.tree = tree' ↔
      Fails c launch now a state tree e tree') ∧
    (∀ corpus k, StopsAt c a state tree corpus k →
      r.1.effects = ((List.range (k + 1)).map
        (chunk c.corpus.batchSize corpus.documents)).map .annotate ∧
      r.2 = (a.callsOn state corpus c.corpus.batchSize).before (k + 1)) ∧
    (∀ e, r.1.result = .error (.output e) →
      ∃ path, c.corpus.output = some path ∧ Begins tree path r.1.tree) ∧
    (∀ e, r.1.result = .error (.summary e) →
      ∃ path tree₁ s, c.summary = some path ∧ Prepares c launch now a state tree tree₁ s ∧
        Begins tree₁ path r.1.tree) := by
  intro r
  refine ⟨pairwise_effects_run c launch now a state tree, run_of_unread, run_of_not_annotates,
    ?_, ?_, exists_launch_iff, ?_, ?_, ?_, ?_, ?_, ?_, ?_⟩
  · intro corpus docs h
    exact calls_run h
  · intro path docs
    exact writeArchive_mem_effects_run
  · intro command h
    exact exists_archive_of_launch h
  · intro path s
    exact writeSummary_mem_effects_run
  · intro s tree'
    exact ends_run
  · intro e tree'
    exact fails_run
  · intro corpus k h
    exact ⟨congrArg Trace.effects (trace_run_of_stopsAt launch now h), state_run_of_stopsAt h⟩
  · intro e h
    exact (fails_of_run ⟨h, rfl⟩).begins_output
  · intro e h
    exact (fails_of_run ⟨h, rfl⟩).begins_summary

/-- An evaluator that fails in a strict run, on an archive of one document. The archive is all that
the run leaves. Without a gold corpus the evaluator is not started, and nothing is done. -/
theorem Config.run_stops_at_first_failure_failing_evaluator :
    let c (gold : Option String) : Config :=
      { Config.standard with
        model := { Config.standard.model with input := "m" }
        corpus := { path := "a", batchSize := 1, output := some "b" }
        evaluation :=
          { Config.standard.evaluation with enabled := true, gold := gold, strict := true } }
    let tree : Tree := ⟨[(⟨.above 0, ["a"]⟩, .file [1] false)]⟩
    let written : Tree := ⟨[(⟨.above 0, ["a"]⟩, .file [1] false),
      (⟨.above 0, ["b"]⟩, .file (Corpus.archiveOf [[1]]) false)]⟩
    let launch : Launcher := fun tree _ => .ok (tree, ⟨some 1, [], []⟩)
    let now : Time.Timestamp := ⟨⟨1970, 1, 1⟩, 0, 0⟩
    let a := Annotator.scripted ⟨"parser", .reverse, none, "", []⟩
    let r (gold : Option String) := (c gold).run launch now a 0 tree
    (∃ command, .launch command ∈ (r (some "g")).1.effects) ∧
      (r (some "g")).1.result = .error (.evaluator (some 1)) ∧
      (r (some "g")).1.tree = written ∧
      (r none).1.effects = [] ∧ (r none).1.tree = tree := by
  intro c tree written launch now a r
  have hread : Corpus.read tree "a" = .ok ⟨"a", [[1]]⟩ := rfl
  have hannotates : Annotates (c (some "g")) a 0 tree ⟨"a", [[1]]⟩ [[1]] :=
    ⟨rfl, hread, by decide, by decide⟩
  have hchunks : chunks 1 [[1]] = [[[(1 : UInt8)]]] := chunks_eq_map_chunk Nat.one_ne_zero _
  have htime : (a.annotateCorpus 0 .empty ⟨"a", [[1]]⟩ 1).metrics.annotationTime = .ok ⟨0⟩ := by
    rw [Annotator.annotateCorpus, if_neg Nat.one_ne_zero, hchunks]
    rfl
  have haccounts : ∃ s, Accounts (c (some "g")) now a 0 tree [[1]] s :=
    ⟨_, _, _, hannotates, htime, rfl⟩
  have hwrite : Corpus.write tree "b" [[1]] = .ok written :=
    Corpus.write_eq_ok_iff.mpr ⟨rfl, by decide, by decide +kernel⟩
  obtain ⟨-, -, -, -, harchive, hlaunch, -, -, -, hfails, -⟩ :=
    Config.run_stops_at_first_failure (c (some "g")) launch now a 0 tree
  obtain ⟨-, hunread, -⟩ := Config.run_stops_at_first_failure (c none) launch now a 0 tree
  refine ⟨hlaunch.mpr ⟨rfl, "b", [[1]], written, (harchive _ _).mpr ⟨rfl, haccounts⟩, hwrite⟩, ?_⟩
  obtain ⟨s, haccounts⟩ := haccounts
  obtain ⟨hresult, htree⟩ := (hfails _ _).mpr (.unevaluated haccounts (.written rfl hwrite)
    (.failed rfl rfl rfl (by decide) rfl))
  obtain ⟨heffects, hleft, -⟩ := hunread (by rintro ⟨_, hvalid, _⟩; cases hvalid)
  exact ⟨hresult, htree, heffects, hleft⟩

end CorpusAnnotator
