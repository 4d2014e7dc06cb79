import CorpusAnnotator.Proofs.Annotator.Batchwise

/-! What the size of its batches does to an annotation. An annotator that acts document by document
gives the same documents in batches of any size, and as much is counted; only the batches are more
or fewer. -/
namespace CorpusAnnotator

variable {σ : Type}

/-! ## Acting document by document -/

namespace Annotator

/-- The state that a batch leaves. -/
def next (a : Annotator σ) (s : σ) (batch : List Document) : σ :=
  (a.annotate s batch).1

/-- The documents that are answered to a batch, and none where the call fails. -/
def answer (a : Annotator σ) (s : σ) (batch : List Document) : List Document :=
  match (a.annotate s batch).2 with
  | .error _ => []
  | .ok reply => reply.documents

/-- The states that batches can lead to. -/
inductive Reaches (a : Annotator σ) (s : σ) : σ → Prop where
  | start : a.Reaches s s
  | call {t : σ} (batch : List Document) : a.Reaches s t → a.Reaches s (a.next t batch)

/-- From a state on, the annotator never fails, has one answer for each document, and answers to the
documents of two batches together what it answers to the one and then to the other. -/
structure Documentwise (a : Annotator σ) (s : σ) : Prop where
  answers : ∀ t, a.Reaches s t → ∀ batch, ∃ reply,
    (a.annotate t batch).2 = .ok reply ∧ reply.documents.length = batch.length
  append : ∀ t, a.Reaches s t → ∀ xs ys,
    a.answer t (xs ++ ys) = a.answer t xs ++ a.answer (a.next t xs) ys

variable {a : Annotator σ} {s t : σ}

theorem Documentwise.length_answer (h : a.Documentwise s) (ht : a.Reaches s t)
    (batch : List Document) : (a.answer t batch).length = batch.length := by
  obtain ⟨reply, hreply, hlength⟩ := h.answers t ht batch
  rw [answer, hreply]
  exact hlength

end Annotator

/-! ## Calls -/

namespace Calls

variable {c : Calls σ}

theorem reaches_before (c : Calls σ) (k : Nat) : c.annotator.Reaches c.start (c.before k) := by
  induction k with
  | zero => exact .start
  | succ k ih => exact .call (c.batch k) ih

theorem accepted_of_documentwise (h : c.annotator.Documentwise c.start) (k : Nat) :
    c.Accepted k :=
  h.answers _ (c.reaches_before k) (c.batch k)

/-- However the documents are given out to calls, the answers to them are the answer to all. -/
theorem flatMap_answered_eq_answer (h : c.annotator.Documentwise c.start) (k n : Nat) :
    (List.range' k n).flatMap c.answered =
      c.annotator.answer (c.before k) (c.batches k n).flatten := by
  induction n generalizing k with
  | zero =>
    have hlength := h.length_answer (c.reaches_before k) []
    exact (List.eq_nil_of_length_eq_zero hlength).symm
  | succ n ih =>
    have hbatches : c.batches k (n + 1) = c.batch k :: c.batches (k + 1) n := by
      rw [batches, List.range'_succ, List.map_cons, ← batches]
    rw [List.range'_succ, List.flatMap_cons, ih, hbatches, List.flatten_cons,
      h.append _ (c.reaches_before k)]
    rfl

end Calls

/-! ## Passes -/

namespace Annotator

variable {a : Annotator σ} {s : σ} {m : Metrics} {c : Corpus} {size : Nat}

theorem flatten_batches_callsOn (h : size ≠ 0) (a : Annotator σ) (s : σ) (c : Corpus) :
    ((a.callsOn s c size).batches 0 (callCount c size)).flatten = c.documents := by
  rw [Calls.batches, ← List.flatMap_def, ← List.range_eq_range']
  exact flatMap_chunk_chunkCount h c.documents

/-- A pass gives the answer to the whole corpus, and counts it. -/
theorem annotateCorpus_of_documentwise (ha : a.Documentwise s) (h : size ≠ 0) (m : Metrics)
    (c : Corpus) :
    (a.annotateCorpus s m c size).result = .ok (a.answer s c.documents) ∧
      (a.annotateCorpus s m c size).calls.flatten = c.documents ∧
      m.Adds (a.annotateCorpus s m c size).metrics c.documents (a.answer s c.documents) ∧
      (a.annotateCorpus s m c size).metrics.batches = m.batches + callCount c size := by
  have hall : ∀ k, (a.callsOn s c size).Accepted k := Calls.accepted_of_documentwise ha
  have hflat := flatten_batches_callsOn h a s c
  have hdocs : (List.range' 0 (callCount c size)).flatMap (a.callsOn s c size).answered =
      a.answer s c.documents := by
    rw [Calls.flatMap_answered_eq_answer ha, hflat]
    rfl
  obtain ⟨hresult, hcalls, -⟩ := Calls.pass_of_accepted (k := 0) (n := callCount c size)
    (fun k _ _ => hall k) m
  have hadds := Calls.adds_pass_of_accepted (k := 0) (n := callCount c size)
    (fun k _ _ => hall k) m
  rw [hdocs] at hresult
  rw [hflat, hdocs] at hadds
  refine ⟨?_, ?_, ?_, batches_annotateCorpus h fun k _ => hall k⟩
  · rw [annotateCorpus_eq_pass h, hresult]
  · rw [annotateCorpus_eq_pass h, hcalls, hflat]
  · rw [annotateCorpus_eq_pass h]
    exact hadds

/-- The size of the batches makes no difference to what an annotator gives that acts document by
document, nor to the documents and bytes that are counted. Only the batches are more or fewer, and
each has its time. -/
theorem annotateCorpus_same_for_sizes {size size' : Nat} (ha : a.Documentwise s) (h : size ≠ 0)
    (h' : size' ≠ 0) (m m' : Metrics) (c : Corpus) :
    let r := a.annotateCorpus s m c size
    let r' := a.annotateCorpus s m' c size'
    let docs := a.answer s c.documents
    docs.length = c.size ∧ r.result = .ok docs ∧ r'.result = .ok docs ∧
      (r.metrics.documents = m.documents + UInt64.ofNat c.size ∧
        r'.metrics.documents = m'.documents + UInt64.ofNat c.size) ∧
      (r.metrics.bytesIn = m.bytesIn + UInt64.ofNat c.totalBytes ∧
        r'.metrics.bytesIn = m'.bytesIn + UInt64.ofNat c.totalBytes) ∧
      (r.metrics.bytesOut = m.bytesOut + UInt64.ofNat (byteCount docs) ∧
        r'.metrics.bytesOut = m'.bytesOut + UInt64.ofNat (byteCount docs)) ∧
      r.calls.flatten = r'.calls.flatten ∧
      r.metrics.batches = m.batches + (c.size + (size - 1)) / size ∧
      r'.metrics.batches = m'.batches + (c.size + (size' - 1)) / size' := by
  intro r r' docs
  obtain ⟨hresult, hcalls, hadds, hbatches⟩ := annotateCorpus_of_documentwise ha h m c
  obtain ⟨hresult', hcalls', hadds', hbatches'⟩ := annotateCorpus_of_documentwise ha h' m' c
  exact ⟨ha.length_answer .start c.documents, hresult, hresult',
    ⟨hadds.documents, hadds'.documents⟩, ⟨hadds.bytesIn, hadds'.bytesIn⟩,
    ⟨hadds.bytesOut, hadds'.bytesOut⟩, hcalls.trans hcalls'.symm, hbatches, hbatches'⟩

/-- The script that turns each document round acts document by document. -/
theorem documentwise_reverse (name : String) (n : Nat) :
    (scripted ⟨name, .reverse, none, "", []⟩).Documentwise n where
  answers _ _ _ := ⟨_, rfl, List.length_map _⟩
  append _ _ _ _ := List.map_append

/-- It gives three documents back in batches of one and of two. -/
theorem annotateCorpus_same_for_sizes_three :
    let a := scripted ⟨"parser", .reverse, none, "", []⟩
    let c : Corpus := ⟨"mem", [[1, 2], [3], [4, 5]]⟩
    let r := a.annotateCorpus 0 .empty c 1
    let r' := a.annotateCorpus 0 .empty c 2
    a.Documentwise 0 ∧ r.result = .ok [[2, 1], [3], [5, 4]] ∧ r'.result = r.result ∧
      r'.metrics.bytesOut = 5 ∧ r.metrics.batches = 3 ∧ r'.metrics.batches = 2 := by
  intro a c r r'
  obtain ⟨-, hresult, hresult', -, -, ⟨-, hout'⟩, -, hbatches, hbatches'⟩ :=
    annotateCorpus_same_for_sizes (documentwise_reverse "parser" 0) (by decide : 1 ≠ 0)
      (by decide : 2 ≠ 0) .empty .empty c
  exact ⟨documentwise_reverse "parser" 0, hresult, hresult'.trans hresult.symm, hout',
    hbatches.trans (by decide), hbatches'.trans (by decide)⟩

end Annotator

end CorpusAnnotator
