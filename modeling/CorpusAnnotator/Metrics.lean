import CorpusAnnotator.Event
import CorpusAnnotator.Number.Decimal
import CorpusAnnotator.Time.Duration

/-! What annotation costs: counts of documents and bytes, and the time of every batch. -/
namespace CorpusAnnotator

open Number (Binary64)
open Time (Duration)

/-- Totals over the batches recorded so far, as words that wrap, and the times of the batches in the
order in which they were recorded. -/
structure Metrics where
  documents : UInt64
  bytesIn : UInt64
  bytesOut : UInt64
  times : List Duration
  deriving Repr, DecidableEq

/-- Order statistics of the batch times, in whole microseconds. -/
structure BatchStats where
  count : Nat
  mean : Nat
  median : Nat
  percentile95 : Nat
  greatest : Nat
  deriving Repr, DecidableEq

namespace Metrics

def empty : Metrics := ⟨0, 0, 0, []⟩

/-- Add one finished batch. -/
def record (m : Metrics) (documents bytesIn bytesOut : Nat) (time : Duration) : Metrics where
  documents := m.documents + UInt64.ofNat documents
  bytesIn := m.bytesIn + UInt64.ofNat bytesIn
  bytesOut := m.bytesOut + UInt64.ofNat bytesOut
  times := m.times ++ [time]

def batches (m : Metrics) : Nat := m.times.length

inductive Error where
  /-- The times add up to more than a duration can hold. -/
  | overflow
  deriving Repr, DecidableEq

def Error.message : Error → String
  | .overflow => "overflow in iter::sum over durations"

/-- The time of all batches together. -/
def annotationTime (m : Metrics) : Except Error Duration :=
  match Duration.sum? m.times with
  | some d => .ok d
  | none => .error .overflow

/-- Documents for each second; zero where no time has passed. -/
def throughput (m : Metrics) : Except Error Binary64 := do
  let seconds := (← m.annotationTime).seconds
  return if seconds.isZero then .zero else .ofNat m.documents.toNat / seconds

/-- The times in whole microseconds, as words, from the least to the greatest. -/
def sortedTimes (m : Metrics) : List Nat :=
  (m.times.map fun d => d.microseconds % Number.wordSize).mergeSort

/-- Ninety-five of a hundred, as near as the format comes to it. -/
def percentile : Binary64 := .ofDecimal false 95 (-2)

/-- The rank of the percentile among `n` times, which is at most the last. -/
def percentileRank (n : Nat) : Nat :=
  min (.ofNat n * percentile : Binary64).wholePart (n - 1)

/-- The statistics of the batches; all zero where there are none. The median is the upper one. -/
def stats (m : Metrics) : BatchStats :=
  let sorted := m.sortedTimes
  let n := sorted.length
  { count := n
    mean := sorted.foldl (· + ·) 0 % Number.wordSize / n
    median := sorted[n / 2]?.getD 0
    percentile95 := sorted[percentileRank n]?.getD 0
    greatest := sorted.getLast?.getD 0 }

/-- What is told when the annotation is done. -/
def summaryEvents (m : Metrics) : Except Error (List Event) := do
  let s := m.stats
  let seconds := (← m.annotationTime).seconds
  let throughput ← m.throughput
  return [
    .info (s!"Wall clock time for {m.documents} annotation: " ++ Number.fixedText 6 seconds ++
      " seconds") [],
    .info "Batch latency" [("batches", toString s.count), ("mean_us", toString s.mean),
      ("p50_us", toString s.median), ("p95_us", toString s.percentile95),
      ("max_us", toString s.greatest)],
    .info "Annotation throughput" [("throughput", Number.fixedText 1 throughput ++ " docs/s"),
      ("bytes_in", toString m.bytesIn), ("bytes_out", toString m.bytesOut)]]

end Metrics

end CorpusAnnotator
