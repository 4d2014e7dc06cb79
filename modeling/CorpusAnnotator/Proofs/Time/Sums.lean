import Mathlib.Algebra.GroupWithZero.Nat
import CorpusAnnotator.Time.Duration

/-! Sums of durations, and how they are added up in words: whole seconds and fractions apart, with a
carry from the fractions to the seconds where their word is full and once more at the end. What comes
out is exact to the nanosecond. It is only missing where no duration is as long, which the order of
the durations has no part in. -/
namespace CorpusAnnotator.Time.Duration

/-! ## The exact sum -/

/-- The nanoseconds of durations together. -/
def total (ds : List Duration) : Nat :=
  (ds.map nanoseconds).sum

theorem total_cons (d : Duration) (ds : List Duration) :
    total (d :: ds) = d.nanoseconds + total ds := by
  rw [total, List.map_cons, List.sum_cons, ← total]

theorem foldl_eq_total (ds : List Duration) (n : Nat) :
    ds.foldl (fun n d => n + d.nanoseconds) n = n + total ds := by
  induction ds generalizing n with
  | nil => rfl
  | cons d ds ih => rw [List.foldl_cons, ih, total_cons, Nat.add_assoc]

/-- Durations have a sum where it is short of the limit, and then it is exact. -/
theorem sum?_eq (ds : List Duration) :
    sum? ds = if total ds < limit then some ⟨total ds⟩ else none := by
  rw [sum?, foldl_eq_total, Nat.zero_add]

/-! ## Adding up in words -/

/-- A number, if it fits a word. -/
def checked (n : Nat) : Option Nat :=
  if n < Number.wordSize then some n else none

theorem checked_of_lt {n : Nat} (h : n < Number.wordSize) : checked n = some n :=
  if_pos h

theorem checked_of_le {n : Nat} (h : Number.wordSize ≤ n) : checked n = none :=
  if_neg (Nat.not_lt_of_le h)

/-- The whole seconds and the nanoseconds that were counted so far. There may be more nanoseconds
than a second has. -/
structure Tally where
  seconds : Nat
  nanoseconds : Nat
  deriving Repr, DecidableEq

namespace Tally

def exact (t : Tally) : Nat :=
  t.seconds * billion + t.nanoseconds

/-- Count a duration. Where the word of the nanoseconds is full, their whole seconds are carried. -/
def add? (t : Tally) (d : Duration) : Option Tally := do
  let seconds ← checked (t.seconds + d.wholeSeconds)
  match checked (t.nanoseconds + d.fraction) with
  | some nanoseconds => return ⟨seconds, nanoseconds⟩
  | none =>
    let seconds ← checked (seconds + t.nanoseconds / billion)
    return ⟨seconds, t.nanoseconds % billion + d.fraction⟩

/-- The duration that was counted, with the last carry. -/
def close? (t : Tally) : Option Duration := do
  let seconds ← checked (t.seconds + t.nanoseconds / billion)
  return .ofSeconds seconds (t.nanoseconds % billion)

/-- Seconds that fit no word are past the limit. -/
theorem limit_le {seconds : Nat} (h : Number.wordSize ≤ seconds) : limit ≤ seconds * billion :=
  Nat.mul_le_mul_right billion h

/-- A step counts all of the duration. It only fails where there is too much to count. -/
theorem add?_cases (t : Tally) (d : Duration) :
    (∃ t', t.add? d = some t' ∧ t'.exact = t.exact + d.nanoseconds) ∨
      t.add? d = none ∧ limit ≤ t.exact + d.nanoseconds := by
  have hd : d.wholeSeconds * billion + d.fraction = d.nanoseconds := Nat.div_add_mod' _ _
  have ht : t.nanoseconds / billion * billion + t.nanoseconds % billion = t.nanoseconds :=
    Nat.div_add_mod' _ _
  rcases Nat.lt_or_ge (t.seconds + d.wholeSeconds) Number.wordSize with hs | hs
  · rcases Nat.lt_or_ge (t.nanoseconds + d.fraction) Number.wordSize with hn | hn
    · left
      refine ⟨⟨t.seconds + d.wholeSeconds, t.nanoseconds + d.fraction⟩, ?_, ?_⟩
      · rw [add?, checked_of_lt hs, checked_of_lt hn]
        rfl
      · rw [exact, exact, ← hd, Nat.add_mul, Nat.add_add_add_comm]
    · -- of the nanoseconds counted so far only what is less than a second stays
      rcases Nat.lt_or_ge (t.seconds + d.wholeSeconds + t.nanoseconds / billion)
        Number.wordSize with hc | hc
      · left
        refine ⟨⟨t.seconds + d.wholeSeconds + t.nanoseconds / billion,
          t.nanoseconds % billion + d.fraction⟩, ?_, ?_⟩
        · rw [add?, checked_of_lt hs, checked_of_le hn, Option.bind_eq_bind, Option.bind_some,
            checked_of_lt hc]
          rfl
        · show (t.seconds + d.wholeSeconds + t.nanoseconds / billion) * billion +
            (t.nanoseconds % billion + d.fraction) = _
          rw [exact, Nat.add_mul, Nat.add_mul]
          omega
      · right
        constructor
        · rw [add?, checked_of_lt hs, checked_of_le hn, Option.bind_eq_bind, Option.bind_some,
            checked_of_le hc]
          rfl
        · have hlimit := limit_le hc
          rw [Nat.add_mul, Nat.add_mul] at hlimit
          rw [exact]
          omega
  · right
    constructor
    · rw [add?, checked_of_le hs]
      rfl
    · have hlimit := limit_le hs
      rw [Nat.add_mul] at hlimit
      rw [exact]
      omega

/-- What was counted is a duration when its whole seconds fit a word. -/
theorem exact_lt_limit_iff (t : Tally) :
    t.exact < limit ↔ t.seconds + t.nanoseconds / billion < Number.wordSize := by
  have hpos : 0 < billion := by decide
  rw [limit, ← Nat.div_lt_iff_lt_mul hpos, exact, Nat.mul_comm, Nat.mul_add_div hpos]

theorem close?_eq (t : Tally) :
    t.close? = if t.exact < limit then some ⟨t.exact⟩ else none := by
  have ht : t.nanoseconds / billion * billion + t.nanoseconds % billion = t.nanoseconds :=
    Nat.div_add_mod' _ _
  by_cases hlt : t.exact < limit
  · have hclose : t.close? = some (.ofSeconds (t.seconds + t.nanoseconds / billion)
        (t.nanoseconds % billion)) := by
      rw [close?, checked_of_lt (t.exact_lt_limit_iff.mp hlt)]
      rfl
    rw [hclose, if_pos hlt, Duration.ofSeconds, Nat.add_mul, Nat.add_assoc, ht, exact]
  · have hge := Nat.le_of_not_lt (mt t.exact_lt_limit_iff.mpr hlt)
    rw [close?, checked_of_le hge, if_neg hlt]
    rfl

/-- All steps and the last carry give what the tally and the durations come to. -/
theorem foldlM_add?_close? (t : Tally) (ds : List Duration) :
    (ds.foldlM add? t).bind close? =
      if t.exact + total ds < limit then some ⟨t.exact + total ds⟩ else none := by
  induction ds generalizing t with
  | nil =>
    rw [total, List.map_nil, List.sum_nil, Nat.add_zero, ← close?_eq]
    rfl
  | cons d ds ih =>
    rw [List.foldlM_cons, total_cons, ← Nat.add_assoc]
    rcases t.add?_cases d with ⟨t', hadd, hexact⟩ | ⟨hadd, hlimit⟩
    · rw [hadd, ← hexact]
      exact ih t'
    · rw [hadd, if_neg (by omega)]
      rfl

end Tally

/-- Durations added up in words, one after the other. -/
def addUp? (ds : List Duration) : Option Duration :=
  (ds.foldlM Tally.add? ⟨0, 0⟩).bind Tally.close?

/-- Carrying loses nothing, and no step fails too early. -/
theorem addUp?_eq_sum? (ds : List Duration) : addUp? ds = sum? ds := by
  rw [addUp?, Tally.foldlM_add?_close?, sum?_eq, Tally.exact, Nat.zero_mul, Nat.zero_add,
    Nat.zero_add]

end CorpusAnnotator.Time.Duration
