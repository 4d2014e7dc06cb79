import CorpusAnnotator.Annotator.Basic
import CorpusAnnotator.Proofs.Corpus.Chunks
import CorpusAnnotator.Proofs.Results

/-! What an annotator is asked and what it answers, call by call. The annotator may keep any state
and fail at any call, so each call is told by the calls before it. A pass over a corpus is the calls
up to the first one that is not accepted. -/
namespace CorpusAnnotator

/-! ## What is counted -/

theorem byteCount_append (xs ys : List Document) :
    byteCount (xs ++ ys) = byteCount xs + byteCount ys := by
  rw [byteCount, List.flatten_append, List.length_append]
  rfl

/-- Metrics that have counted `answers` to `given` more than others. Counters are words and wrap. -/
structure Metrics.Adds (m m' : Metrics) (given answers : List Document) : Prop where
  documents : m'.documents = m.documents + UInt64.ofNat given.length
  bytesIn : m'.bytesIn = m.bytesIn + UInt64.ofNat (byteCount given)
  bytesOut : m'.bytesOut = m.bytesOut + UInt64.ofNat (byteCount answers)

theorem Metrics.Adds.refl (m : Metrics) : m.Adds m [] [] where
  documents := (UInt64.add_zero _).symm
  bytesIn := (UInt64.add_zero _).symm
  bytesOut := (UInt64.add_zero _).symm

theorem Metrics.Adds.trans {m m' m'' : Metrics} {given given' answers answers' : List Document}
    (h : m.Adds m' given answers) (h' : m'.Adds m'' given' answers') :
    m.Adds m'' (given ++ given') (answers ++ answers') where
  documents := by
    rw [h'.documents, h.documents, List.length_append, UInt64.ofNat_add, UInt64.add_assoc]
  bytesIn := by rw [h'.bytesIn, h.bytesIn, byteCount_append, UInt64.ofNat_add, UInt64.add_assoc]
  bytesOut := by
    rw [h'.bytesOut, h.bytesOut, byteCount_append, UInt64.ofNat_add, UInt64.add_assoc]

/-! ## Calls -/

variable {σ : Type}

/-- An annotator, the state that it starts from, and the batch of every call to come. -/
structure Calls (σ : Type) where
  annotator : Annotator σ
  start : σ
  batch : Nat → List Document

namespace Calls

/-- The annotator's state before call `k`. -/
def before (c : Calls σ) : Nat → σ
  | 0 => c.start
  | k + 1 => (c.annotator.annotate (c.before k) (c.batch k)).1

/-- The answer to call `k`. -/
def answer (c : Calls σ) (k : Nat) : Except Failure Reply :=
  (c.annotator.annotate (c.before k) (c.batch k)).2

/-- The documents of the answer, and none where the call failed. -/
def answered (c : Calls σ) (k : Nat) : List Document :=
  match c.answer k with
  | .error _ => []
  | .ok reply => reply.documents

/-- A call is accepted when it succeeds with as many documents as it was given. -/
def Accepted (c : Calls σ) (k : Nat) : Prop :=
  ∃ reply, c.answer k = .ok reply ∧ reply.documents.length = (c.batch k).length

/-- What is said about a call that is not accepted. -/
def complaint (c : Calls σ) (k : Nat) : AnnotationError :=
  match c.answer k with
  | .error failure => .failed c.annotator.name k failure
  | .ok reply => .miscounted c.annotator.name reply.documents.length (c.batch k).length

/-- The metrics after call `k`: its batch, its answer and its time count if it succeeds. -/
def record (c : Calls σ) (k : Nat) (m : Metrics) : Metrics :=
  match c.answer k with
  | .error _ => m
  | .ok reply =>
    m.record (c.batch k).length (byteCount (c.batch k)) (byteCount reply.documents) reply.time

variable {c : Calls σ} {k : Nat}

theorem length_answered (h : c.Accepted k) : (c.answered k).length = (c.batch k).length := by
  obtain ⟨reply, hanswer, hlength⟩ := h
  rw [answered, hanswer]
  exact hlength

instance (c : Calls σ) (k : Nat) : Decidable (c.Accepted k) :=
  match h : c.answer k with
  | .error _ => isFalse (by simp [Accepted, h])
  | .ok reply =>
    decidable_of_iff (reply.documents.length = (c.batch k).length) (by simp [Accepted, h])

/-- The batches of `n` calls from call `k` on. -/
def batches (c : Calls σ) (k n : Nat) : List (List Document) :=
  (List.range' k n).map c.batch

/-- The pass over those batches. -/
def pass (c : Calls σ) (k : Nat) (m : Metrics) (n : Nat) : Annotation σ :=
  c.annotator.annotateBatches k (c.before k) m (c.batches k n)

/-! ## One call -/

/-- A call that is accepted is followed by the others. -/
theorem pass_succ_of_accepted (h : c.Accepted k) (m : Metrics) (n : Nat) :
    c.pass k m (n + 1) =
      { c.pass (k + 1) (c.record k m) n with
        calls := c.batch k :: (c.pass (k + 1) (c.record k m) n).calls
        result := (c.pass (k + 1) (c.record k m) n).result.map (c.answered k ++ ·) } := by
  obtain ⟨reply, hanswer, hlength⟩ := h
  have hcall : c.annotator.annotate (c.before k) (c.batch k) = (c.before (k + 1), .ok reply) :=
    Prod.ext rfl hanswer
  have hanswered : c.answered k = reply.documents := by rw [answered, hanswer]
  have hrecord : c.record k m = m.record (c.batch k).length (byteCount (c.batch k))
      (byteCount reply.documents) reply.time := by rw [record, hanswer]
  rw [pass, batches, List.range'_succ, List.map_cons, Annotator.annotateBatches, hcall]
  simp only [hlength, ne_eq, not_true_eq_false, if_false, hanswered, hrecord]
  rfl

/-- A call that is not accepted is the last. -/
theorem pass_succ_of_not_accepted (h : ¬ c.Accepted k) (m : Metrics) (n : Nat) :
    c.pass k m (n + 1) = ⟨c.before (k + 1), m, [c.batch k], .error (c.complaint k)⟩ := by
  rw [pass, batches, List.range'_succ, List.map_cons, Annotator.annotateBatches]
  cases hanswer : c.answer k with
  | error failure =>
    have hcall : c.annotator.annotate (c.before k) (c.batch k) =
        (c.before (k + 1), .error failure) := Prod.ext rfl hanswer
    rw [hcall, complaint, hanswer]
  | ok reply =>
    have hcall : c.annotator.annotate (c.before k) (c.batch k) =
        (c.before (k + 1), .ok reply) := Prod.ext rfl hanswer
    have hlength : reply.documents.length ≠ (c.batch k).length :=
      fun hlength => h ⟨reply, hanswer, hlength⟩
    rw [hcall, complaint, hanswer]
    simp only [ne_eq, hlength, not_false_eq_true, if_true]

/-! ## Whole passes -/

/-- Where all calls are accepted, all of them are made. -/
theorem pass_of_accepted {n : Nat} (h : ∀ j, k ≤ j → j < k + n → c.Accepted j) (m : Metrics) :
    (c.pass k m n).result = .ok ((List.range' k n).flatMap c.answered) ∧
      (c.pass k m n).calls = c.batches k n ∧ (c.pass k m n).state = c.before (k + n) := by
  -- a call changes the metrics, and the next one starts from the changed ones
  induction n generalizing k m with
  | zero => exact ⟨rfl, rfl, rfl⟩
  | succ n ih =>
    obtain ⟨hresult, hcalls, hstate⟩ :=
      ih (k := k + 1) (fun j hj hj' => h j (by omega) (by omega)) (c.record k m)
    rw [pass_succ_of_accepted (h k (Nat.le_refl k) (by omega))]
    refine ⟨?_, ?_, ?_⟩
    · show Except.map _ (c.pass (k + 1) (c.record k m) n).result = _
      rw [hresult, List.range'_succ, List.flatMap_cons]
      rfl
    · show c.batch k :: (c.pass (k + 1) (c.record k m) n).calls = _
      rw [hcalls, batches, batches, List.range'_succ, List.map_cons]
    · show (c.pass (k + 1) (c.record k m) n).state = _
      rw [hstate]
      congr 1
      omega

/-- Where the call after `i` accepted ones is not, it is the last that is made. -/
theorem pass_of_not_accepted {i n : Nat} (hi : i < n)
    (h : ∀ j, k ≤ j → j < k + i → c.Accepted j) (hbad : ¬ c.Accepted (k + i)) (m : Metrics) :
    (c.pass k m n).result = .error (c.complaint (k + i)) ∧
      (c.pass k m n).calls = c.batches k (i + 1) ∧
      (c.pass k m n).state = c.before (k + i + 1) := by
  induction i generalizing k m n with
  | zero =>
    -- the bad call is the next one
    obtain ⟨n, rfl⟩ := Nat.exists_eq_add_of_lt hi
    rw [Nat.zero_add, pass_succ_of_not_accepted (k := k) hbad]
    exact ⟨rfl, rfl, rfl⟩
  | succ i ih =>
    obtain ⟨n, rfl⟩ : ∃ n', n = n' + 1 := ⟨n - 1, by omega⟩
    have hindex : k + (i + 1) = k + 1 + i := by omega
    rw [hindex] at hbad ⊢
    obtain ⟨hresult, hcalls, hstate⟩ :=
      ih (k := k + 1) (n := n) (by omega) (fun j hj hj' => h j (by omega) (by omega)) hbad
        (c.record k m)
    rw [pass_succ_of_accepted (h k (Nat.le_refl k) (by omega))]
    refine ⟨?_, ?_, hstate⟩
    · show Except.map _ (c.pass (k + 1) (c.record k m) n).result = _
      rw [hresult]
      rfl
    · show c.batch k :: (c.pass (k + 1) (c.record k m) n).calls = _
      rw [hcalls, batches, batches, List.range'_succ (n := i + 1), List.map_cons]

/-! ## Counters -/

/-- A call that is accepted adds its batch and its answer to the counters. -/
theorem adds_record (h : c.Accepted k) (m : Metrics) :
    m.Adds (c.record k m) (c.batch k) (c.answered k) := by
  obtain ⟨reply, hanswer, -⟩ := h
  rw [record, answered, hanswer]
  exact ⟨rfl, rfl, rfl⟩

/-- So do calls that are all accepted. -/
theorem adds_pass_of_accepted {n : Nat} (h : ∀ j, k ≤ j → j < k + n → c.Accepted j)
    (m : Metrics) : m.Adds (c.pass k m n).metrics (c.batches k n).flatten
      ((List.range' k n).flatMap c.answered) := by
  induction n generalizing k m with
  | zero => exact .refl m
  | succ n ih =>
    have hk : c.Accepted k := h k (Nat.le_refl k) (by omega)
    have hlater := ih (k := k + 1) (fun j hj hj' => h j (by omega) (by omega)) (c.record k m)
    rw [pass_succ_of_accepted hk, batches, List.range'_succ, List.map_cons, List.flatten_cons,
      List.flatMap_cons]
    exact (adds_record hk m).trans hlater

/-- Calls are all accepted, or there is a first one that is not. -/
theorem accepted_or_first_not (c : Calls σ) (n : Nat) :
    (∀ j < n, c.Accepted j) ∨ ∃ i < n, (∀ j < i, c.Accepted j) ∧ ¬ c.Accepted i := by
  induction n with
  | zero => exact .inl nofun
  | succ n ih =>
    rcases ih with hall | ⟨i, hi, hfirst, hbad⟩
    · by_cases hn : c.Accepted n
      · left
        intro j hj
        rcases Nat.lt_succ_iff_lt_or_eq.mp hj with hj | rfl
        · exact hall j hj
        · exact hn
      · exact .inr ⟨n, Nat.lt_succ_self n, hall, hn⟩
    · exact .inr ⟨i, Nat.lt_succ_of_lt hi, hfirst, hbad⟩

end Calls

end CorpusAnnotator
