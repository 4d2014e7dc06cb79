import CorpusAnnotator.Proofs.Annotator.Batchwise
import CorpusAnnotator.Proofs.Metrics.Recording

/-! What metrics account for when passes share them: the calls that are done, all of them and no
others, wherever a pass fails. -/
namespace CorpusAnnotator

open Time (Duration)

/-! ## Calls that are done -/

namespace Calls

variable {σ : Type} {c : Calls σ} {k : Nat}

/-- What there is to record of call `k`: nothing where it fails or miscounts. -/
def finished? (c : Calls σ) (k : Nat) : Option Finished :=
  match c.answer k with
  | .error _ => none
  | .ok reply =>
    if reply.documents.length = (c.batch k).length then
      some ⟨(c.batch k).length, byteCount (c.batch k), byteCount reply.documents, reply.time⟩
    else none

theorem finished?_of_accepted (h : c.Accepted k) :
    ∃ b, c.finished? k = some b ∧ ∀ m, c.record k m = m.recordOne b := by
  obtain ⟨reply, hanswer, hlength⟩ := h
  refine ⟨⟨(c.batch k).length, byteCount (c.batch k), byteCount reply.documents, reply.time⟩,
    ?_, fun m => ?_⟩
  · rw [finished?, hanswer]
    exact if_pos hlength
  · rw [record, hanswer]
    rfl

theorem finished?_of_not_accepted (h : ¬ c.Accepted k) : c.finished? k = none := by
  cases hanswer : c.answer k with
  | error failure => rw [finished?, hanswer]
  | ok reply =>
    rw [finished?, hanswer]
    exact if_neg fun hlength => h ⟨reply, hanswer, hlength⟩

/-- A pass records what is done of the calls that it makes. -/
theorem metrics_pass (c : Calls σ) (k n : Nat) (m : Metrics) :
    (c.pass k m n).metrics =
      m.recordAll ((List.range' k (c.pass k m n).calls.length).filterMap c.finished?) := by
  induction n generalizing k m with
  | zero => rfl
  | succ n ih =>
    by_cases hk : c.Accepted k
    · obtain ⟨b, hb, hrecord⟩ := finished?_of_accepted hk
      rw [pass_succ_of_accepted hk, hrecord]
      show (c.pass (k + 1) (m.recordOne b) n).metrics = m.recordAll
        ((List.range' k ((c.pass (k + 1) (m.recordOne b) n).calls.length + 1)).filterMap _)
      rw [List.range'_succ, List.filterMap_cons_some hb, Metrics.recordAll_cons, ← ih]
    · rw [pass_succ_of_not_accepted hk]
      show m = m.recordAll ([k].filterMap _)
      rw [List.filterMap_cons_none (finished?_of_not_accepted hk)]
      rfl

/-- Which calls are made has nothing to do with the metrics. -/
theorem calls_pass (c : Calls σ) (k n : Nat) (m m' : Metrics) :
    (c.pass k m n).calls = (c.pass k m' n).calls := by
  induction n generalizing k m m' with
  | zero => rfl
  | succ n ih =>
    by_cases hk : c.Accepted k
    · rw [pass_succ_of_accepted hk, pass_succ_of_accepted hk]
      exact congrArg (c.batch k :: ·) (ih (k + 1) _ _)
    · rw [pass_succ_of_not_accepted hk, pass_succ_of_not_accepted hk]

theorem length_filterMap_finished? {ks : List Nat} (h : ∀ k ∈ ks, c.Accepted k) :
    (ks.filterMap c.finished?).length = ks.length := by
  induction ks with
  | nil => rfl
  | cons k ks ih =>
    obtain ⟨b, hb, -⟩ := finished?_of_accepted (h k List.mem_cons_self)
    rw [List.filterMap_cons_some hb, List.length_cons, List.length_cons,
      ih fun j hj => h j (List.mem_cons_of_mem k hj)]

end Calls

/-! ## Passes -/

/-- A pass to be made: an annotator, the state in which it is taken up, a corpus and the size of
the batches. -/
structure Pass where
  State : Type
  annotator : Annotator State
  start : State
  corpus : Corpus
  size : Nat

namespace Pass

variable {p : Pass} {m : Metrics}

def run (p : Pass) (m : Metrics) : Annotation p.State :=
  p.annotator.annotateCorpus p.start m p.corpus p.size

/-- The metrics after passes that share them. A pass that fails is followed by the others. -/
def runAll (m : Metrics) (ps : List Pass) : Metrics :=
  ps.foldl (fun m p => (p.run m).metrics) m

def calls (p : Pass) : Calls p.State :=
  p.annotator.callsOn p.start p.corpus p.size

/-- How many calls the pass makes. -/
def made (p : Pass) : Nat :=
  (p.run .empty).calls.length

/-- What there is to record of the calls that the pass makes, in their order. -/
def finished (p : Pass) : List Finished :=
  (List.range p.made).filterMap p.calls.finished?

theorem run_of_size_eq_zero (h : p.size = 0) (m : Metrics) :
    p.run m = ⟨p.start, m, [], .error .zeroBatchSize⟩ :=
  if_pos h

theorem length_calls_run (p : Pass) (m : Metrics) : (p.run m).calls.length = p.made := by
  by_cases h : p.size = 0
  · rw [made, run_of_size_eq_zero h, run_of_size_eq_zero h]
  · rw [made, run, run, Annotator.annotateCorpus_eq_pass h, Annotator.annotateCorpus_eq_pass h,
      Calls.calls_pass _ _ _ m .empty]

theorem calls_run (p : Pass) (m : Metrics) :
    (p.run m).calls = (List.range p.made).map p.calls.batch := by
  rw [← p.length_calls_run m]
  by_cases h : p.size = 0
  · rw [run_of_size_eq_zero h]
    rfl
  · obtain ⟨n, -, hcalls, -⟩ := Annotator.exists_calls_eq h p.annotator p.start m p.corpus
    rw [run, hcalls, List.length_map, List.length_range]
    rfl

theorem made_of_size_eq_zero (h : p.size = 0) : p.made = 0 := by
  rw [made, run_of_size_eq_zero h]
  rfl

/-- A pass adds what is done of its calls, whether it comes to its end or not. -/
theorem metrics_run (p : Pass) (m : Metrics) : (p.run m).metrics = m.recordAll p.finished := by
  by_cases h : p.size = 0
  · rw [finished, made_of_size_eq_zero h, run_of_size_eq_zero h]
    rfl
  · rw [finished, ← p.length_calls_run m, List.range_eq_range', run,
      Annotator.annotateCorpus_eq_pass h, Calls.metrics_pass]
    rfl

theorem metrics_runAll (m : Metrics) (ps : List Pass) :
    runAll m ps = m.recordAll (ps.flatMap finished) := by
  induction ps generalizing m with
  | nil => rfl
  | cons p ps ih =>
    rw [List.flatMap_cons, Metrics.recordAll_append, ← metrics_run, ← ih]
    rfl

/-- How many calls it takes to give out the whole corpus. -/
def wanted (p : Pass) : Nat :=
  Annotator.callCount p.corpus p.size

/-- A pass that succeeds has made and done all the calls that it takes. One that fails has done all
but the last that it made. -/
theorem made_cases (p : Pass) (m : Metrics) (h : p.size ≠ 0) :
    ((∃ docs, (p.run m).result = .ok docs) ∧ p.made = p.wanted ∧ p.finished.length = p.wanted) ∨
    ((∃ e, (p.run m).result = .error e) ∧ p.finished.length < p.wanted ∧
      p.made = p.finished.length + 1 ∧ (∀ k < p.finished.length, p.calls.Accepted k) ∧
      ¬ p.calls.Accepted p.finished.length) := by
  have hmade : (p.run m).calls.length = p.made := p.length_calls_run m
  rcases Annotator.annotateCorpus_cases h p.annotator p.start m p.corpus with
    ⟨hall, hresult, hcalls, -⟩ | ⟨i, hi, hfirst, hbad, hresult, hcalls, -⟩
  · rw [run, hcalls, List.length_map, List.length_range] at hmade
    have hlength : p.finished.length = p.wanted := by
      rw [finished, ← hmade, Calls.length_filterMap_finished?, List.length_range, wanted]
      exact fun k hk => hall k (List.mem_range.mp hk)
    exact .inl ⟨⟨_, hresult⟩, hmade.symm, hlength⟩
  · rw [run, hcalls, List.length_map, List.length_range] at hmade
    have hnone : p.calls.finished? i = none := Calls.finished?_of_not_accepted hbad
    have hlength : p.finished.length = i := by
      rw [finished, ← hmade, List.range_succ, List.filterMap_append,
        List.filterMap_cons_none hnone, List.filterMap_nil, List.append_nil,
        Calls.length_filterMap_finished?, List.length_range]
      exact fun k hk => hfirst k (List.mem_range.mp hk)
    rw [hlength]
    exact .inr ⟨⟨_, hresult⟩, hi, hmade.symm, hfirst, hbad⟩

theorem made_of_ok {docs : List Document} (h : (p.run m).result = .ok docs) :
    p.made = p.wanted ∧ p.finished.length = p.wanted := by
  by_cases hsize : p.size = 0
  · rw [run_of_size_eq_zero hsize] at h
    cases h
  rcases p.made_cases m hsize with ⟨-, hcalls⟩ | ⟨⟨e, he⟩, -⟩
  · exact hcalls
  · cases h.symm.trans he

theorem made_of_error {e : AnnotationError} (h : (p.run m).result = .error e) (hsize : p.size ≠ 0) :
    p.finished.length < p.wanted ∧ p.made = p.finished.length + 1 ∧
      (∀ k < p.finished.length, p.calls.Accepted k) ∧ ¬ p.calls.Accepted p.finished.length := by
  rcases p.made_cases m hsize with ⟨⟨docs, hdocs⟩, -⟩ | ⟨-, hcalls⟩
  · cases h.symm.trans hdocs
  · exact hcalls

/-- Metrics that passes share account for the calls that are done: for those that succeed with as
many documents as they were given, and for no others. A pass that fails keeps what it has done, and
the call that it fails at adds nothing. The counters hold the sums, but for whole words. The time is
exact to the nanosecond however the batches follow each other, and it is only refused when no
duration is as long. -/
theorem runAll_accounts_for_finished (ps : List Pass) :
    let m := runAll .empty ps
    let done := ps.flatMap finished
    let nanoseconds := (done.map (·.time.nanoseconds)).sum
    (∀ (p : Pass) (m : Metrics), (p.run m).metrics = m.recordAll p.finished ∧
      (p.run m).calls = (List.range p.made).map p.calls.batch ∧
      (p.size = 0 → p.made = 0) ∧
      (∀ docs, (p.run m).result = .ok docs →
        p.made = p.wanted ∧ p.finished.length = p.wanted) ∧
      (∀ e, (p.run m).result = .error e → p.size ≠ 0 → p.finished.length < p.wanted ∧
        p.made = p.finished.length + 1 ∧ (∀ k < p.finished.length, p.calls.Accepted k) ∧
        ¬ p.calls.Accepted p.finished.length)) ∧
    m.batches = done.length ∧
    m.documents.toNat = (done.map (·.documents)).sum % Number.wordSize ∧
    m.bytesIn.toNat = (done.map (·.bytesIn)).sum % Number.wordSize ∧
    m.bytesOut.toNat = (done.map (·.bytesOut)).sum % Number.wordSize ∧
    m.times = done.map (·.time) ∧
    m.annotationTime =
      (if nanoseconds < Duration.limit then .ok ⟨nanoseconds⟩ else .error .overflow) ∧
    ∀ other, other.Perm done →
      (Metrics.empty.recordAll other).annotationTime = m.annotationTime ∧
      Duration.addUp? (other.map (·.time)) =
        if nanoseconds < Duration.limit then some ⟨nanoseconds⟩ else none := by
  intro m done nanoseconds
  have hm : m = Metrics.empty.recordAll done := metrics_runAll .empty ps
  have htime : m.annotationTime =
      if nanoseconds < Duration.limit then .ok ⟨nanoseconds⟩ else .error .overflow := by
    rw [hm, Metrics.annotationTime_recordAll_empty]
  obtain ⟨hdocuments, hbytesIn, hbytesOut⟩ := Metrics.counters_recordAll_empty done
  rw [← hm] at hdocuments hbytesIn hbytesOut
  refine ⟨fun p m => ⟨p.metrics_run m, p.calls_run m, made_of_size_eq_zero, fun _ => made_of_ok,
    fun _ => made_of_error⟩, ?_, hdocuments, hbytesIn, hbytesOut, ?_, htime, fun other hperm => ?_⟩
  · rw [hm, Metrics.batches_recordAll_empty]
  · rw [hm, Metrics.times_recordAll_empty]
  · have htotal : (other.map (·.time.nanoseconds)).sum = nanoseconds :=
      (hperm.map _).sum_nat
    constructor
    · rw [Metrics.annotationTime_recordAll_empty, htotal, htime]
    · rw [Duration.addUp?_eq_sum?, Duration.sum?_eq, Metrics.total_map_time, htotal]

/-- Three passes over the same documents: one comes to its end, one fails at its second call, and one
loses a document of its first batch. -/
theorem runAll_accounts_for_finished_three :
    let c : Corpus := ⟨"mem", [[1, 2], [3], [4]]⟩
    let pass (t : Annotator.Transform) (failOn : Option Nat) (size : Nat) : Pass :=
      ⟨Nat, Annotator.scripted ⟨"parser", t, failOn, "lost", [⟨600000000⟩]⟩, 0, c, size⟩
    let failing := pass .reverse (some 1) 1
    let ps := [pass .reverse none 2, failing, pass .dropFirst none 2]
    let m := runAll .empty ps
    failing.finished.length = 1 ∧ ¬ failing.calls.Accepted 1 ∧ m.batches = 3 ∧
    m.documents.toNat = 4 ∧ m.bytesIn.toNat = 6 ∧ m.annotationTime = .ok ⟨1800000000⟩ := by
  intro c pass failing ps m
  have hdone : ps.flatMap finished = [⟨2, 3, 3, ⟨600000000⟩⟩, ⟨1, 1, 1, ⟨600000000⟩⟩,
      ⟨1, 2, 2, ⟨600000000⟩⟩] := by
    decide +kernel
  have hmade : failing.made = 2 := by
    decide +kernel
  have hlength : failing.finished.length = 1 := by
    decide +kernel
  obtain ⟨hruns, hbatches, hdocuments, hbytes, -, -, htime, -⟩ := runAll_accounts_for_finished ps
  obtain ⟨-, -, -, hok, herror⟩ := hruns failing .empty
  rw [hdone] at hbatches hdocuments hbytes htime
  cases hresult : (failing.run .empty).result with
  | ok docs =>
    have hdocs := hok docs hresult
    omega
  | error e =>
    obtain ⟨-, -, -, hlast⟩ := herror e hresult (by decide)
    exact ⟨hlength, hlength ▸ hlast, hbatches, hdocuments, hbytes, htime⟩

end Pass

end CorpusAnnotator
