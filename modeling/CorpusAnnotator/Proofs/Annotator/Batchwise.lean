import CorpusAnnotator.Annotator.Scripted
import CorpusAnnotator.Proofs.Annotator.Calls

/-! The annotation of a corpus, whatever the annotator does: no document is lost, given twice or out
of its place, and the first bad call ends it. -/
namespace CorpusAnnotator

variable {σ : Type} {size : Nat}

namespace Annotator

/-- The calls that annotate a corpus in batches of a size. -/
def callsOn (a : Annotator σ) (s : σ) (c : Corpus) (size : Nat) : Calls σ :=
  ⟨a, s, chunk size c.documents⟩

/-- The number of batches of a size that a corpus has. -/
def callCount (c : Corpus) (size : Nat) : Nat :=
  chunkCount size c.documents

theorem annotateCorpus_eq_pass (h : size ≠ 0) (a : Annotator σ) (s : σ) (m : Metrics)
    (c : Corpus) :
    a.annotateCorpus s m c size = (a.callsOn s c size).pass 0 m (callCount c size) := by
  rw [annotateCorpus, if_neg h, chunks_eq_map_chunk h, List.range_eq_range']
  rfl

variable {a : Annotator σ} {s : σ} {m : Metrics} {c : Corpus}

theorem annotateCorpus_of_accepted (h : size ≠ 0)
    (hall : ∀ k < callCount c size, (a.callsOn s c size).Accepted k) :
    (a.annotateCorpus s m c size).result =
        .ok ((List.range (callCount c size)).flatMap (a.callsOn s c size).answered) ∧
      (a.annotateCorpus s m c size).calls =
        (List.range (callCount c size)).map (chunk size c.documents) ∧
      (a.annotateCorpus s m c size).state = (a.callsOn s c size).before (callCount c size) := by
  obtain ⟨hresult, hcalls, hstate⟩ := Calls.pass_of_accepted (c := a.callsOn s c size) (k := 0)
    (n := callCount c size) (fun j _ hj => hall j (by omega)) m
  rw [annotateCorpus_eq_pass h, List.range_eq_range']
  rw [Nat.zero_add] at hstate
  exact ⟨hresult, hcalls, hstate⟩

theorem annotateCorpus_of_not_accepted (h : size ≠ 0) {i : Nat} (hi : i < callCount c size)
    (hfirst : ∀ k < i, (a.callsOn s c size).Accepted k)
    (hbad : ¬ (a.callsOn s c size).Accepted i) :
    (a.annotateCorpus s m c size).result = .error ((a.callsOn s c size).complaint i) ∧
      (a.annotateCorpus s m c size).calls =
        (List.range (i + 1)).map (chunk size c.documents) ∧
      (a.annotateCorpus s m c size).state = (a.callsOn s c size).before (i + 1) := by
  obtain ⟨hresult, hcalls, hstate⟩ := Calls.pass_of_not_accepted (c := a.callsOn s c size) (k := 0)
    hi (fun j _ hj => hfirst j (by omega)) ((Nat.zero_add i).symm ▸ hbad) m
  rw [annotateCorpus_eq_pass h, List.range_eq_range']
  rw [Nat.zero_add] at hresult hstate
  exact ⟨hresult, hcalls, hstate⟩

/-- Either every call is made and accepted, or the calls up to the first bad one are made. -/
theorem annotateCorpus_cases (h : size ≠ 0) (a : Annotator σ) (s : σ) (m : Metrics) (c : Corpus) :
    ((∀ k < callCount c size, (a.callsOn s c size).Accepted k) ∧
      (a.annotateCorpus s m c size).result =
        .ok ((List.range (callCount c size)).flatMap (a.callsOn s c size).answered) ∧
      (a.annotateCorpus s m c size).calls =
        (List.range (callCount c size)).map (chunk size c.documents) ∧
      (a.annotateCorpus s m c size).state = (a.callsOn s c size).before (callCount c size)) ∨
    ∃ i < callCount c size, (∀ k < i, (a.callsOn s c size).Accepted k) ∧
      ¬ (a.callsOn s c size).Accepted i ∧
      (a.annotateCorpus s m c size).result = .error ((a.callsOn s c size).complaint i) ∧
      (a.annotateCorpus s m c size).calls = (List.range (i + 1)).map (chunk size c.documents) ∧
      (a.annotateCorpus s m c size).state = (a.callsOn s c size).before (i + 1) := by
  rcases (a.callsOn s c size).accepted_or_first_not (callCount c size) with
    hall | ⟨i, hi, hfirst, hbad⟩
  · exact .inl ⟨hall, annotateCorpus_of_accepted h hall⟩
  · exact .inr ⟨i, hi, hfirst, hbad, annotateCorpus_of_not_accepted h hi hfirst hbad⟩

/-- The batches of a pass are the first ones of the corpus, and the annotator's state is the one
that they lead to. -/
theorem exists_calls_eq (h : size ≠ 0) (a : Annotator σ) (s : σ) (m : Metrics) (c : Corpus) :
    ∃ n ≤ callCount c size,
      (a.annotateCorpus s m c size).calls = (List.range n).map (chunk size c.documents) ∧
      (a.annotateCorpus s m c size).state = (a.callsOn s c size).before n := by
  rcases annotateCorpus_cases h a s m c with
    ⟨-, -, hcalls, hstate⟩ | ⟨i, hi, -, -, -, hcalls, hstate⟩
  · exact ⟨callCount c size, Nat.le_refl _, hcalls, hstate⟩
  · exact ⟨i + 1, hi, hcalls, hstate⟩

/-- A pass succeeds exactly when all of its calls are accepted. -/
theorem exists_result_iff (h : size ≠ 0) (a : Annotator σ) (s : σ) (m : Metrics) (c : Corpus) :
    (∃ docs, (a.annotateCorpus s m c size).result = .ok docs) ↔
      ∀ k < callCount c size, (a.callsOn s c size).Accepted k := by
  rcases annotateCorpus_cases h a s m c with ⟨hall, hresult, -⟩ | ⟨i, hi, -, hbad, hresult, -⟩
  · exact ⟨fun _ => hall, fun _ => ⟨_, hresult⟩⟩
  · constructor
    · rintro ⟨docs, hdocs⟩
      rw [hresult] at hdocs
      cases hdocs
    · intro hall
      exact absurd (hall i hi) hbad

/-- The answers of accepted calls are as many as the documents of the corpus. -/
theorem length_flatMap_answered (h : size ≠ 0)
    (hall : ∀ k < callCount c size, (a.callsOn s c size).Accepted k) :
    ((List.range (callCount c size)).flatMap (a.callsOn s c size).answered).length = c.size := by
  have hlength : ∀ k ∈ List.range (callCount c size),
      ((a.callsOn s c size).answered k).length = (chunk size c.documents k).length :=
    fun k hk => Calls.length_answered (hall k (List.mem_range.mp hk))
  rw [length_flatMap_congr hlength, callCount, flatMap_chunk_chunkCount h]
  rfl

/-- The answer to document `i` is in its place: call `i / size` has given it, as number
`i % size`. -/
theorem getElem?_flatMap_answered (h : size ≠ 0)
    (hall : ∀ k < callCount c size, (a.callsOn s c size).Accepted k) {i : Nat} (hi : i < c.size) :
    ((List.range (callCount c size)).flatMap (a.callsOn s c size).answered)[i]? =
      ((a.callsOn s c size).answered (i / size))[i % size]? := by
  apply getElem?_flatMap_range h
  · intro k hk
    rw [Calls.length_answered (hall k (by omega))]
    exact length_chunk_of_succ_lt h hk
  · exact div_lt_chunkCount h hi

/-- The metrics have one time for each batch of a pass that succeeds. -/
theorem batches_annotateBatches {index : Nat} {batches : List (List Document)}
    {docs : List Document} (hresult : (a.annotateBatches index s m batches).result = .ok docs) :
    (a.annotateBatches index s m batches).metrics.batches = m.batches + batches.length := by
  induction batches generalizing index s m docs with
  | nil => rfl
  | cons batch rest ih =>
    unfold annotateBatches at hresult ⊢
    split at hresult
    · cases hresult
    · next s' reply hcall =>
      by_cases hlength : reply.documents.length ≠ batch.length
      · rw [if_pos hlength] at hresult
        cases hresult
      · simp only [if_neg hlength] at hresult ⊢
        obtain ⟨later, hlater, -⟩ := Results.map_eq_ok_iff.mp hresult
        rw [ih hlater, List.length_cons]
        simp only [Metrics.batches, Metrics.record, List.length_append, List.length_singleton]
        omega

theorem batches_annotateCorpus (h : size ≠ 0)
    (hall : ∀ k < callCount c size, (a.callsOn s c size).Accepted k) :
    (a.annotateCorpus s m c size).metrics.batches = m.batches + callCount c size := by
  have hresult := (annotateCorpus_of_accepted (m := m) h hall).1
  rw [annotateCorpus, if_neg h] at hresult ⊢
  rw [batches_annotateBatches hresult, chunks_eq_map_chunk h, List.length_map, List.length_range]
  rfl

/-- The annotation of a corpus asks for consecutive batches from the first on, each once. It
succeeds exactly when every one is answered with as many documents, and then each document has its
answer in its place. Else it stops at the first call that is not, and tells why. -/
theorem annotateCorpus_batchwise (a : Annotator σ) (s : σ) (m : Metrics) (c : Corpus)
    (size : Nat) :
    let r := a.annotateCorpus s m c size
    let calls := a.callsOn s c size
    let count := callCount c size
    (size = 0 → r.result = .error .zeroBatchSize ∧ r.calls = [] ∧ r.state = s) ∧
    (size ≠ 0 →
      (∃ n ≤ count,
        r.calls = (List.range n).map (chunk size c.documents) ∧ r.state = calls.before n) ∧
      r.calls.flatten <+: c.documents ∧
      (∀ batch ∈ r.calls, batch ≠ []) ∧
      (∀ k batch, r.calls[k]? = some batch → k + 1 < count → batch.length = size) ∧
      ((∃ docs, r.result = .ok docs) ↔ ∀ k < count, calls.Accepted k) ∧
      (∀ docs, r.result = .ok docs →
        r.calls.length = count ∧ docs = (List.range count).flatMap calls.answered ∧
        docs.length = c.size ∧
        ∀ i < c.size, docs[i]? = (calls.answered (i / size))[i % size]?) ∧
      (∀ e, r.result = .error e →
        ∃ k < count, (∀ j < k, calls.Accepted j) ∧ ¬ calls.Accepted k ∧ e = calls.complaint k ∧
          r.calls.length = k + 1 ∧ r.state = calls.before (k + 1))) := by
  intro r calls count
  refine ⟨?_, fun h => ?_⟩
  · -- a size of zero is refused before any call
    intro h
    have hr : r = ⟨s, m, [], .error .zeroBatchSize⟩ := if_pos h
    rw [hr]
    exact ⟨rfl, rfl, rfl⟩
  -- all that is said of the batches is said of the first `n` of them
  obtain ⟨n, hn, hcalls, hstate⟩ : ∃ n ≤ count,
      r.calls = (List.range n).map (chunk size c.documents) ∧ r.state = calls.before n :=
    exists_calls_eq h a s m c
  refine ⟨⟨n, hn, hcalls, hstate⟩, ?_, ?_, ?_, exists_result_iff h a s m c, ?_, ?_⟩
  · rw [hcalls, ← List.flatMap_def, flatMap_chunk]
    exact List.take_prefix _ _
  · intro batch hbatch
    rw [hcalls] at hbatch
    obtain ⟨k, hk, rfl⟩ := List.mem_map.mp hbatch
    exact chunk_ne_nil h (Nat.lt_of_lt_of_le (List.mem_range.mp hk) hn)
  · intro k batch hbatch hk
    rw [hcalls, List.getElem?_map, Option.map_eq_some_iff] at hbatch
    obtain ⟨k', hk', rfl⟩ := hbatch
    obtain ⟨-, rfl⟩ := List.getElem?_eq_some_iff.mp hk'
    rw [List.getElem_range]
    exact length_chunk_of_succ_lt h hk
  · intro docs hdocs
    have hall := (exists_result_iff h a s m c).mp ⟨docs, hdocs⟩
    obtain ⟨hresult, hcalls, -⟩ := annotateCorpus_of_accepted (m := m) h hall
    obtain rfl := Except.ok.inj (hdocs.symm.trans hresult)
    refine ⟨?_, rfl, length_flatMap_answered h hall,
      fun i hi => getElem?_flatMap_answered h hall hi⟩
    show (a.annotateCorpus s m c size).calls.length = _
    rw [hcalls, List.length_map, List.length_range]
  · intro e he
    rcases annotateCorpus_cases h a s m c with
      ⟨-, hresult, -⟩ | ⟨i, hi, hfirst, hbad, hresult, hcalls, hstate⟩
    · cases hresult.symm.trans he
    · refine ⟨i, hi, hfirst, hbad, Except.error.inj (he.symm.trans hresult), ?_, hstate⟩
      show (a.annotateCorpus s m c size).calls.length = _
      rw [hcalls, List.length_map, List.length_range]

/-- Three documents in batches of two. An annotator that answers them all gives three, and one that
loses a document of its first batch is not asked again. -/
theorem annotateCorpus_batchwise_three :
    let c : Corpus := ⟨"mem", [[1], [2], [3]]⟩
    let r (t : Transform) := (scripted ⟨"parser", t, none, "", []⟩).annotateCorpus 0 .empty c 2
    (∃ docs, (r .reverseBatch).result = .ok docs ∧ docs.length = 3 ∧ docs[2]? = some [3]) ∧
    (r .dropFirst).result = .error (.miscounted "parser" 1 2) ∧
    (r .dropFirst).calls.length = 1 := by
  intro c r
  constructor
  · obtain ⟨-, -, -, -, hok, hdocs, -⟩ := (annotateCorpus_batchwise
      (scripted ⟨"parser", .reverseBatch, none, "", []⟩) 0 .empty c 2).2 (by decide)
    obtain ⟨docs, hresult⟩ := hok.mpr (by decide)
    obtain ⟨-, -, hlength, hget⟩ := hdocs docs hresult
    exact ⟨docs, hresult, hlength, hget 2 (by decide)⟩
  · obtain ⟨-, -, -, -, hok, -, herror⟩ := (annotateCorpus_batchwise
      (scripted ⟨"parser", .dropFirst, none, "", []⟩) 0 .empty c 2).2 (by decide)
    cases hresult : (r .dropFirst).result with
    | ok docs => exact absurd (hok.mp ⟨docs, hresult⟩) (by decide)
    | error e =>
      obtain ⟨k, -, hfirst, -, rfl, hcalls, -⟩ := herror e hresult
      obtain rfl : k = 0 := by
        cases k with
        | zero => rfl
        | succ k => exact absurd (hfirst 0 (Nat.succ_pos k)) (by decide)
      exact ⟨rfl, hcalls⟩

end Annotator

end CorpusAnnotator
