import CorpusAnnotator.Proofs.Pipeline.Steps

/-! The order of what a run does: first batches are annotated, then at most one archive is written,
one evaluator started and one summary written. -/
namespace CorpusAnnotator

open Evaluation (Command Launcher)
open Files (Tree)

/-- Where in a run an effect belongs. -/
def Effect.stage : Effect → Nat
  | .annotate _ => 0
  | .writeArchive _ _ => 1
  | .launch _ => 2
  | .writeSummary _ _ => 3

/-- Whether one effect may come before another. Only annotating is done more than once. -/
def Effect.Before (e f : Effect) : Prop :=
  e.stage < f.stage ∨ e.stage = 0 ∧ f.stage = 0

/-- No summary is written before a program is started. -/
theorem Effect.writeSummary_notMem {effects : List Effect} {command : Command} {path : String}
    {s : RunSummary} (h : (effects ++ [Effect.launch command]).Pairwise Effect.Before) :
    Effect.writeSummary path s ∉ effects ++ [.launch command] := by
  intro hmem
  rcases List.mem_append.mp hmem with hmem | hmem
  · obtain hlt | ⟨heq, -⟩ :=
      (List.pairwise_append.mp h).2.2 _ hmem _ List.mem_cons_self
    · exact absurd hlt (by decide : ¬ 3 < 2)
    · exact absurd heq (by decide : ¬ 3 = 0)
  · cases List.mem_singleton.mp hmem

/-- The effects of a run are in order, and none belongs before stage `n`. -/
structure Trace.Ordered (n : Nat) (t : Trace) : Prop where
  late : ∀ e ∈ t.effects, n ≤ e.stage
  ordered : t.effects.Pairwise Effect.Before

namespace Trace

variable {α : Type} {n : Nat} {effects : List Effect} {tree : Tree} {next : α → Trace}
  {outcome : Except (RunError × Tree) α}

theorem Ordered.step (hstage : ∀ e ∈ effects, e.stage = n) (hfew : effects.Pairwise Effect.Before)
    (hnext : ∀ x, (next x).Ordered (n + 1)) : (step effects outcome next).Ordered n := by
  cases outcome with
  | error e => exact ⟨fun e he => Nat.le_of_eq (hstage e he).symm, hfew⟩
  | ok x =>
    refine ⟨?_, ?_⟩
    · intro e he
      rcases List.mem_append.mp he with he | he
      · exact Nat.le_of_eq (hstage e he).symm
      · exact Nat.le_of_succ_le ((hnext x).late e he)
    · refine List.pairwise_append.mpr ⟨hfew, (hnext x).ordered, ?_⟩
      intro e he f hf
      left
      rw [hstage e he]
      exact (hnext x).late f hf

/-- A step that does one thing at most. -/
theorem Ordered.step_toList {effect? : Option Effect}
    (hstage : ∀ e, effect? = some e → e.stage = n) (hnext : ∀ x, (next x).Ordered (n + 1)) :
    (Trace.step effect?.toList outcome next).Ordered n := by
  cases effect? with
  | none => exact .step (fun e he => absurd he List.not_mem_nil) .nil hnext
  | some e =>
    refine .step ?_ (List.pairwise_singleton _ _) hnext
    intro f hf
    obtain rfl := List.mem_singleton.mp hf
    exact hstage f rfl

theorem Ordered.step_nil (hnext : ∀ x, (next x).Ordered n) :
    (Trace.step [] outcome next).Ordered n := by
  cases outcome with
  | error e => exact ⟨fun e he => absurd he List.not_mem_nil, .nil⟩
  | ok x => exact hnext x

theorem Ordered.done (s : RunSummary) (tree : Tree) : (done s tree).Ordered n :=
  ⟨fun _ he => absurd he List.not_mem_nil, .nil⟩

end Trace

namespace Run

variable {σ : Type} (c : Config) (launch : Launcher) (now : Time.Timestamp) (tree : Tree)
  (s : RunSummary)

theorem ordered_summarize : (summarize c tree s).trace.Ordered 3 := by
  rw [trace_summarize]
  apply Trace.Ordered.step_toList
  · intro e he
    obtain ⟨path, -, rfl⟩ := Option.map_eq_some_iff.mp he
    rfl
  · intro tree
    exact .done s tree

theorem ordered_evaluate : (evaluate c launch tree s).trace.Ordered 2 := by
  rw [trace_evaluate]
  apply Trace.Ordered.step_toList
  · intro e he
    unfold evaluationEffect? at he
    split at he
    · split at he <;> cases he
      rfl
    · cases he
  · intro outcome
    exact ordered_summarize c _ _

theorem ordered_deliver (annotated : List Document) :
    (deliver c launch tree annotated s).trace.Ordered 1 := by
  rw [trace_deliver]
  apply Trace.Ordered.step_toList
  · intro e he
    obtain ⟨path, -, rfl⟩ := Option.map_eq_some_iff.mp he
    rfl
  · intro tree
    exact ordered_evaluate c launch tree s

theorem ordered_account (m : Metrics) (annotated : List Document) :
    (account c launch now tree m annotated).trace.Ordered 1 := by
  rw [trace_account]
  exact .step_nil fun time => ordered_deliver c launch tree _ annotated

theorem ordered_annotate (a : Annotator σ) (state : σ) (corpus : Corpus) :
    (annotate c launch now a state tree corpus).1.trace.Ordered 0 := by
  rw [trace_annotate]
  apply Trace.Ordered.step
  · intro e he
    obtain ⟨batch, -, rfl⟩ := List.mem_map.mp he
    rfl
  · rw [List.pairwise_map]
    exact List.pairwise_of_forall fun _ _ => .inr ⟨rfl, rfl⟩
  · intro annotated
    exact ordered_account c launch now tree _ annotated

end Run

theorem Config.pairwise_effects_run {σ : Type} (c : Config) (launch : Launcher)
    (now : Time.Timestamp) (a : Annotator σ) (state : σ) (tree : Tree) :
    (c.run launch now a state tree).1.effects.Pairwise Effect.Before := by
  have hordered : (c.run launch now a state tree).1.trace.Ordered 0 := by
    rw [trace_run]
    apply Trace.Ordered.step_nil
    intro _
    exact .step_nil fun corpus => Run.ordered_annotate c launch now tree a state corpus
  exact hordered.ordered

end CorpusAnnotator
