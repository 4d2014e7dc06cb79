import CorpusAnnotator.Corpus.Basic
import CorpusAnnotator.Failure
import CorpusAnnotator.Metrics

/-! Annotators, and the annotation of a corpus batch by batch. -/
namespace CorpusAnnotator

open Time (Duration)

/-- What an annotator answers to a batch: documents, and the time that the work took. -/
structure Reply where
  documents : List Document
  time : Duration
  deriving Repr, DecidableEq

/-- Something that annotates batches. It may keep a state, fail, and answer any documents; only an
answer with one document for each of the batch will be accepted. -/
structure Annotator (σ : Type) where
  name : String
  annotate : σ → List Document → σ × Except Failure Reply

/-- Why the annotation of a corpus stops. -/
inductive AnnotationError where
  | zeroBatchSize
  | failed (name : String) (batch : Nat) (failure : Failure)
  | miscounted (name : String) (answered given : Nat)
  deriving Repr, DecidableEq

def AnnotationError.failure : AnnotationError → Failure
  | .zeroBatchSize => .plain "batch size must be at least 1"
  | .failed name batch failure => failure.during (name ++ s!" failed on batch {batch}")
  | .miscounted name answered given =>
    .plain (name ++ s!" returned {answered} documents for a batch of {given}")

/-- What is left of an annotation, whether it came to its end or not: the annotator's state, the
metrics, the batches that the annotator was given, and the annotated documents. -/
structure Annotation (σ : Type) where
  state : σ
  metrics : Metrics
  calls : List (List Document)
  result : Except AnnotationError (List Document)

namespace Annotator

variable {σ : Type}

/-- Annotate batches, the first of which is number `index`. The first bad answer ends it. -/
def annotateBatches (a : Annotator σ) (index : Nat) (s : σ) (m : Metrics) :
    List (List Document) → Annotation σ
  | [] => ⟨s, m, [], .ok []⟩
  | batch :: rest =>
    match a.annotate s batch with
    | (s, .error failure) => ⟨s, m, [batch], .error (.failed a.name index failure)⟩
    | (s, .ok reply) =>
      if reply.documents.length ≠ batch.length then
        ⟨s, m, [batch], .error (.miscounted a.name reply.documents.length batch.length)⟩
      else
        let m := m.record batch.length (byteCount batch) (byteCount reply.documents) reply.time
        let later := a.annotateBatches (index + 1) s m rest
        { later with
          calls := batch :: later.calls
          result := later.result.map (reply.documents ++ ·) }

/-- Annotate a corpus in batches of `size` documents. -/
def annotateCorpus (a : Annotator σ) (s : σ) (m : Metrics) (c : Corpus) (size : Nat) :
    Annotation σ :=
  if size = 0 then ⟨s, m, [], .error .zeroBatchSize⟩
  else a.annotateBatches 0 s m (chunks size c.documents)

end Annotator

end CorpusAnnotator
