import CorpusAnnotator.Annotator.Basic
import CorpusAnnotator.Config.Basic
import CorpusAnnotator.Corpus.Read
import CorpusAnnotator.Corpus.Write
import CorpusAnnotator.Summary.Basic

/-! A whole run: a corpus is read and annotated, the annotation is written and evaluated, and a
summary is written. Each step is taken only if all before it went well. -/
namespace CorpusAnnotator

open Evaluation (Command Evaluator Launcher Outcome)
open Files (Tree)

/-- Why a run fails. -/
inductive RunError where
  | lack (l : Config.Lack)
  | corpus (e : Corpus.ReadError)
  | annotator (e : AnnotationError)
  | metrics (e : Metrics.Error)
  | output (e : Corpus.WriteFault)
  | evaluation (e : Evaluation.Error)
  /-- The evaluator failed, and the run is strict. -/
  | evaluator (code : Option Int)
  | summary (e : RunSummary.WriteFault)
  deriving Repr, DecidableEq

def RunError.failure : RunError → Failure
  | .lack l => .plain l.message
  | .corpus e => e.failure
  | .annotator e => e.failure
  | .metrics e => .plain e.message
  | .output e => e.failure
  | .evaluation e => e.failure
  | .evaluator code => .plain ("Evaluator exited with status " ++ Evaluation.shownCode code)
  | .summary e => e.failure

/-- What a run does to the world, or tries to do. -/
inductive Effect where
  | annotate (batch : List Document)
  | writeArchive (path : String) (documents : List Document)
  | launch (command : Command)
  | writeSummary (path : String) (summary : RunSummary)
  deriving Repr, DecidableEq

/-- What is left of a run, or of the later part of one: the files, the effects in their order, what
was told, and the summary or the first error. -/
structure Run where
  tree : Tree
  effects : List Effect
  events : List Event
  result : Except RunError RunSummary
  deriving Repr

namespace Run

/-- A run that ends here. -/
def stop (tree : Tree) (e : RunError) : Run := ⟨tree, [], [], .error e⟩

/-- What came before a run. -/
def after (effects : List Effect) (events : List Event) (r : Run) : Run :=
  { r with effects := effects ++ r.effects, events := events ++ r.events }

/-- The last step: write the summary where one is wanted. -/
def summarize (c : Config) (tree : Tree) (s : RunSummary) : Run :=
  match c.summary with
  | none => ⟨tree, [], [], .ok s⟩
  | some path =>
    let written := s.write tree path
    let later : Run :=
      match written with
      | .error e => stop e.left (.summary e.fault)
      | .ok tree => ⟨tree, [], [], .ok s⟩
    later.after [.writeSummary path s] (RunSummary.writeEvents path written)

/-- Go on from an outcome of the evaluator. Where the run is not strict, a failed one is only told.
-/
def conclude (c : Config) (tree : Tree) (s : RunSummary) : Outcome → Run
  | .completed report =>
    summarize c tree { s with evaluation := some (.completed report) }
  | .failed code output =>
    if c.evaluation.strict then stop tree (.evaluator code)
    else
      (summarize c tree { s with evaluation := some (.failed code output) }).after []
        [.warning "Continuing without evaluation result" []]

/-- The files after an attempt to start a program. -/
def treeAfter {ε : Type} (tree : Tree) : Except ε Tree → Tree
  | .ok tree => tree
  | .error _ => tree

/-- The steps from the evaluation on. -/
def evaluate (c : Config) (launch : Launcher) (tree : Tree) (s : RunSummary) : Run :=
  if c.evaluation.enabled then
    match c.evaluationPaths with
    | .error l => stop tree (.lack l)
    | .ok (gold, output) =>
      let evaluator := Evaluator.ofConfig c.evaluation
      let command := evaluator.command gold output
      let attempt := launch tree command
      let tree := treeAfter tree (attempt.map Prod.fst)
      let exit := attempt.map Prod.snd
      let later :=
        match evaluator.outcome exit with
        | .error e => stop tree (.evaluation e)
        | .ok outcome => conclude c tree s outcome
      later.after [.launch command] (evaluator.events gold output exit)
  else summarize c tree s

/-- The steps from the archive on. -/
def deliver (c : Config) (launch : Launcher) (tree : Tree) (annotated : List Document)
    (s : RunSummary) : Run :=
  match c.corpus.output with
  | none => evaluate c launch tree s
  | some path =>
    let written := Corpus.write tree path annotated
    let later :=
      match written with
      | .error e => stop e.left (.output e.fault)
      | .ok tree => evaluate c launch tree s
    later.after [.writeArchive path annotated] (Corpus.writeEvents path annotated written)

/-- The summary of an annotation, before its evaluation. -/
def summaryOf (c : Config) (now : Time.Timestamp) (annotated : List Document) (m : Metrics)
    (time : Time.Duration) : RunSummary where
  timestamp := now
  corpus := c.corpus.path
  documents := annotated.length
  batches := m.batches
  seconds := time.seconds
  output := c.corpus.output
  evaluation := none

/-- The steps from the end of the annotation on. -/
def account (c : Config) (launch : Launcher) (now : Time.Timestamp) (tree : Tree) (m : Metrics)
    (annotated : List Document) : Run :=
  match m.summaryEvents, m.annotationTime with
  | .ok events, .ok time =>
    (deliver c launch tree annotated (summaryOf c now annotated m time)).after [] events
  | .error e, _ => stop tree (.metrics e)
  | _, .error e => stop tree (.metrics e)

variable {σ : Type}

/-- The steps from the annotation on. -/
def annotate (c : Config) (launch : Launcher) (now : Time.Timestamp) (a : Annotator σ) (state : σ)
    (tree : Tree) (corpus : Corpus) : Run × σ :=
  let pass := a.annotateCorpus state .empty corpus c.corpus.batchSize
  let later :=
    match pass.result with
    | .error e => stop tree (.annotator e)
    | .ok annotated => account c launch now tree pass.metrics annotated
  (later.after (pass.calls.map .annotate) [], pass.state)

end Run

/-- Run a configuration: what becomes of the files, and of the annotator. Programs are started by
`launch`, and `now` is the time at the end. -/
def Config.run {σ : Type} (c : Config) (launch : Launcher) (now : Time.Timestamp) (a : Annotator σ)
    (state : σ) (tree : Tree) : Run × σ :=
  match c.validate with
  | .error l => (Run.stop tree (.lack l), state)
  | .ok () =>
    let corpus := Corpus.read tree c.corpus.path
    let events := Corpus.readEvents c.corpus.path corpus
    match corpus with
    | .error e => ((Run.stop tree (.corpus e)).after [] events, state)
    | .ok corpus =>
      let (later, state) := Run.annotate c launch now a state tree corpus
      (later.after [] events, state)

/-- The batches that the annotator was given. -/
def Run.calls (r : Run) : List (List Document) :=
  r.effects.filterMap fun
    | .annotate batch => some batch
    | _ => none

end CorpusAnnotator
