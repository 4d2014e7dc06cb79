import CorpusAnnotator.Annotator.Basic

/-! Annotators that follow a script. They stand in for a trained parser where none is at hand, and
some of them answer what no annotator should. -/
namespace CorpusAnnotator.Annotator

open Time (Duration)

/-- What a scripted annotator does to a batch. -/
inductive Transform where
  | identity
  /-- Small letters of ASCII become capitals. -/
  | upper
  /-- The bytes of each document, last first. -/
  | reverse
  /-- The documents, last first. -/
  | reverseBatch
  /-- Each document marked with the number of the call and its own in the batch. -/
  | tag
  | blank
  | dropFirst
  | repeatLast
  | nothing
  | concatenate
  deriving Repr, DecidableEq

def upperByte (b : UInt8) : UInt8 :=
  if 97 ≤ b ∧ b ≤ 122 then b - 32 else b

/-- The mark of document `i` of call `call`. -/
def tagOf (call i : Nat) : Document :=
  (s!"|{call}.{i}".toList.flatMap String.utf8EncodeChar)

def Transform.apply (call : Nat) (batch : List Document) : Transform → List Document
  | .identity => batch
  | .upper => batch.map (·.map upperByte)
  | .reverse => batch.map List.reverse
  | .reverseBatch => batch.reverse
  | .tag => batch.mapIdx fun i d => d ++ tagOf call i
  | .blank => batch.map fun _ => []
  | .dropFirst => batch.drop 1
  | .repeatLast => batch ++ batch.getLast?.toList
  | .nothing => []
  | .concatenate => [batch.flatten]

/-- A script: what to do, on which call to fail and with what message, and how long the calls take,
over and over. -/
structure Script where
  name : String
  transform : Transform
  failOn : Option Nat
  complaint : String
  times : List Duration
  deriving Repr, DecidableEq

def Script.time (s : Script) (call : Nat) : Duration :=
  s.times[call % s.times.length]?.getD ⟨0⟩

/-- The annotator of a script. Its state is the number of calls so far. -/
def scripted (s : Script) : Annotator Nat where
  name := s.name
  annotate call batch :=
    (call + 1,
      if s.failOn = some call then .error (.plain s.complaint)
      else .ok ⟨s.transform.apply call batch, s.time call⟩)

end CorpusAnnotator.Annotator
