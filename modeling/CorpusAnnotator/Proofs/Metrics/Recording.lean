import CorpusAnnotator.Metrics
import CorpusAnnotator.Proofs.Time.Sums

/-! What metrics hold after any number of batches: the counters are the sums of what was recorded,
as words, and the times are those of the batches in their order. -/
namespace CorpusAnnotator

open Number (wordSize)
open Time (Duration)

/-- What is recorded of a batch that is done. -/
structure Finished where
  documents : Nat
  bytesIn : Nat
  bytesOut : Nat
  time : Duration
  deriving Repr, DecidableEq

namespace Metrics

variable {m : Metrics} {bs : List Finished}

def recordOne (m : Metrics) (b : Finished) : Metrics :=
  m.record b.documents b.bytesIn b.bytesOut b.time

/-- Record batches one after the other. -/
def recordAll (m : Metrics) (bs : List Finished) : Metrics :=
  bs.foldl recordOne m

@[simp] theorem recordAll_nil (m : Metrics) : m.recordAll [] = m :=
  rfl

@[simp] theorem recordAll_cons (m : Metrics) (b : Finished) (bs : List Finished) :
    m.recordAll (b :: bs) = (m.recordOne b).recordAll bs :=
  rfl

theorem recordAll_append (m : Metrics) (bs bs' : List Finished) :
    m.recordAll (bs ++ bs') = (m.recordAll bs).recordAll bs' :=
  List.foldl_append

/-- Each counter grows by the sum of its own column, and each batch leaves its time. -/
theorem recordAll_eq (m : Metrics) (bs : List Finished) :
    m.recordAll bs =
      { documents := m.documents + UInt64.ofNat (bs.map (·.documents)).sum
        bytesIn := m.bytesIn + UInt64.ofNat (bs.map (·.bytesIn)).sum
        bytesOut := m.bytesOut + UInt64.ofNat (bs.map (·.bytesOut)).sum
        times := m.times ++ bs.map (·.time) } := by
  induction bs generalizing m with
  | nil => simp
  | cons b bs ih =>
    rw [recordAll_cons, ih]
    simp only [recordOne, record, List.map_cons, List.sum_cons, UInt64.ofNat_add,
      UInt64.add_assoc, List.append_assoc, List.singleton_append]

/-- A counter that starts at zero holds the sum, but for whole words. -/
theorem toNat_zero_add_ofNat (n : Nat) : ((0 : UInt64) + UInt64.ofNat n).toNat = n % wordSize := by
  rw [UInt64.zero_add, UInt64.toNat_ofNat']
  rfl

theorem counters_recordAll_empty (bs : List Finished) :
    (empty.recordAll bs).documents.toNat = (bs.map (·.documents)).sum % wordSize ∧
      (empty.recordAll bs).bytesIn.toNat = (bs.map (·.bytesIn)).sum % wordSize ∧
      (empty.recordAll bs).bytesOut.toNat = (bs.map (·.bytesOut)).sum % wordSize := by
  rw [recordAll_eq]
  exact ⟨toNat_zero_add_ofNat _, toNat_zero_add_ofNat _, toNat_zero_add_ofNat _⟩

theorem batches_recordAll_empty (bs : List Finished) :
    (empty.recordAll bs).batches = bs.length := by
  rw [batches, recordAll_eq, empty, List.nil_append, List.length_map]

theorem times_recordAll_empty (bs : List Finished) :
    (empty.recordAll bs).times = bs.map (·.time) := by
  rw [recordAll_eq, empty, List.nil_append]

theorem total_map_time (bs : List Finished) :
    Duration.total (bs.map (·.time)) = (bs.map (·.time.nanoseconds)).sum := by
  rw [Duration.total, List.map_map]
  rfl

/-- The time of all batches is the sum of their times, where a duration is as long. -/
theorem annotationTime_recordAll_empty (bs : List Finished) :
    (empty.recordAll bs).annotationTime =
      if (bs.map (·.time.nanoseconds)).sum < Duration.limit then
        .ok ⟨(bs.map (·.time.nanoseconds)).sum⟩
      else .error .overflow := by
  rw [annotationTime, times_recordAll_empty, Duration.sum?_eq, total_map_time]
  by_cases h : (bs.map (·.time.nanoseconds)).sum < Duration.limit
  · rw [if_pos h, if_pos h]
  · rw [if_neg h, if_neg h]

end Metrics

end CorpusAnnotator
