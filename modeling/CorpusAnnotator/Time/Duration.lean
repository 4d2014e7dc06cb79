import CorpusAnnotator.Number.Binary64
import CorpusAnnotator.Number.Integer

/-! Lengths of time, exact to the nanosecond. -/
namespace CorpusAnnotator.Time

structure Duration where
  nanoseconds : Nat
  deriving Repr, DecidableEq

namespace Duration

/-- The nanoseconds of a second. -/
def billion : Nat := 1000000000

def ofSeconds (seconds nanoseconds : Nat) : Duration :=
  ⟨seconds * billion + nanoseconds⟩

def ofMicroseconds (n : Nat) : Duration :=
  ⟨n * 1000⟩

def wholeSeconds (d : Duration) : Nat := d.nanoseconds / billion

def fraction (d : Duration) : Nat := d.nanoseconds % billion

def microseconds (d : Duration) : Nat := d.nanoseconds / 1000

/-- Durations end where the count of whole seconds no longer fits 64 bits. -/
def limit : Nat := Number.wordSize * billion

/-- The seconds as a floating-point number: the whole ones and the billionths are each rounded, and
then their sum. -/
def seconds (d : Duration) : Number.Binary64 :=
  .ofNat d.wholeSeconds + .ofNat d.fraction / .ofNat billion

/-- The sum of durations, unless it reaches the limit. -/
def sum? (ds : List Duration) : Option Duration :=
  let total := ds.foldl (fun n d => n + d.nanoseconds) 0
  if total < limit then some ⟨total⟩ else none

end Duration

end CorpusAnnotator.Time
