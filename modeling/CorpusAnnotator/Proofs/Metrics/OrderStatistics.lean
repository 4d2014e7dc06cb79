import CorpusAnnotator.Proofs.Metrics.Percentile
import CorpusAnnotator.Proofs.Metrics.Recording

/-! The statistics of the batch times are their order statistics: each is read at its rank in the
times in ascending order, and no rank is out of range. -/
namespace CorpusAnnotator.Metrics

open Number (wordSize)

/-! ## Ascending order -/

/-- One list is the other in ascending order. -/
structure Sorts (sorted xs : List Nat) : Prop where
  perm : sorted.Perm xs
  ascending : sorted.Pairwise (· ≤ ·)

variable {sorted xs : List Nat} {i j : Nat}

theorem sorts_mergeSort (xs : List Nat) : Sorts xs.mergeSort xs where
  perm := List.mergeSort_perm xs _
  ascending := by
    have htrans : ∀ a b c : Nat, decide (a ≤ b) = true → decide (b ≤ c) = true →
        decide (a ≤ c) = true := by
      simp only [decide_eq_true_eq]
      exact fun a b c => Nat.le_trans
    have htotal : ∀ a b : Nat, (decide (a ≤ b) || decide (b ≤ a)) = true := by
      simp only [Bool.or_eq_true, decide_eq_true_eq]
      exact Nat.le_total
    exact (List.pairwise_mergeSort htrans htotal xs).imp of_decide_eq_true

namespace Sorts

theorem length_eq (h : Sorts sorted xs) : sorted.length = xs.length :=
  h.perm.length_eq

/-- There is only one ascending order, whatever order the items come in. -/
theorem unique {sorted' ys : List Nat} (h : Sorts sorted xs) (h' : Sorts sorted' ys)
    (hperm : xs.Perm ys) : sorted = sorted' :=
  List.Perm.eq_of_pairwise (fun _ _ _ _ => Nat.le_antisymm) h.ascending h'.ascending
    ((h.perm.trans hperm).trans h'.perm.symm)

theorem le_of_le (h : Sorts sorted xs) {a b : Nat} (ha : sorted[i]? = some a)
    (hb : sorted[j]? = some b) (hij : i ≤ j) : a ≤ b := by
  obtain ⟨hi, rfl⟩ := List.getElem?_eq_some_iff.mp ha
  obtain ⟨hj, rfl⟩ := List.getElem?_eq_some_iff.mp hb
  rcases Nat.lt_or_eq_of_le hij with hlt | rfl
  · exact List.pairwise_iff_getElem.mp h.ascending i j hi hj hlt
  · exact Nat.le_refl _

theorem exists_rank (h : Sorts sorted xs) {a : Nat} (ha : a ∈ xs) :
    ∃ i < xs.length, sorted[i]? = some a := by
  obtain ⟨i, hi, hget⟩ := List.mem_iff_getElem.mp (h.perm.mem_iff.mpr ha)
  exact ⟨i, h.length_eq ▸ hi, List.getElem?_eq_some_iff.mpr ⟨hi, hget⟩⟩

theorem mem_of_getElem? (h : Sorts sorted xs) {a : Nat} (ha : sorted[i]? = some a) : a ∈ xs :=
  h.perm.mem_iff.mp (List.mem_of_getElem? ha)

/-- The first is the least. -/
theorem min?_eq (h : Sorts sorted xs) {a : Nat} (ha : sorted[0]? = some a) :
    xs.min? = some a := by
  rw [List.min?_eq_some_iff]
  refine ⟨h.mem_of_getElem? ha, fun b hb => ?_⟩
  obtain ⟨i, -, hi⟩ := h.exists_rank hb
  exact h.le_of_le ha hi (Nat.zero_le i)

/-- The last is the greatest. -/
theorem max?_eq (h : Sorts sorted xs) {a : Nat} (ha : sorted[xs.length - 1]? = some a) :
    xs.max? = some a := by
  rw [List.max?_eq_some_iff]
  refine ⟨h.mem_of_getElem? ha, fun b hb => ?_⟩
  obtain ⟨i, hi, hget⟩ := h.exists_rank hb
  exact h.le_of_le hget ha (by omega)

end Sorts

/-! ## Statistics -/

/-- Numbers whose sum fits a word fit words themselves. -/
theorem map_mod_wordSize {xs : List Nat} (h : xs.sum < wordSize) : xs.map (· % wordSize) = xs := by
  induction xs with
  | nil => rfl
  | cons x xs ih =>
    rw [List.sum_cons] at h
    rw [List.map_cons, ih (by omega), Nat.mod_eq_of_lt (by omega)]

theorem getElem?_eq_some_getD (h : i < sorted.length) : sorted[i]? = some (sorted[i]?.getD 0) := by
  rw [List.getElem?_eq_getElem h]
  rfl

variable {m m' : Metrics}

theorem sorts_sortedTimes (m : Metrics) :
    Sorts m.sortedTimes ((m.times.map (·.microseconds)).map (· % wordSize)) := by
  rw [List.map_map]
  exact sorts_mergeSort _

/-- The order in which times were recorded is lost. -/
theorem stats_of_perm (h : m.times.Perm m'.times) : m.stats = m'.stats := by
  rw [stats, stats, m.sorts_sortedTimes.unique m'.sorts_sortedTimes ((h.map _).map _)]

/-- Statistics that are read from times in ascending order, each at its rank. -/
structure Reads (s : BatchStats) (sorted times : List Nat) : Prop where
  sorts : Sorts sorted times
  count : s.count = times.length
  mean : s.mean = times.sum / times.length
  median : sorted[times.length / 2]? = some s.median
  percentile95 : sorted[percentileRank times.length]? = some s.percentile95
  greatest : sorted[times.length - 1]? = some s.greatest

/-- No rank is out of range where there are times, and no word is too short for them. -/
theorem reads_stats {times : List Nat} (htimes : m.times.map (·.microseconds) = times)
    (hne : times ≠ []) (hsum : times.sum < wordSize) : Reads m.stats m.sortedTimes times := by
  have hsorts : Sorts m.sortedTimes times := by
    have h := m.sorts_sortedTimes
    rwa [htimes, map_mod_wordSize hsum] at h
  have hlength : m.sortedTimes.length = times.length := hsorts.length_eq
  have hpos : 0 < times.length := List.length_pos_iff.mpr hne
  refine ⟨hsorts, hlength, ?_, ?_, ?_, ?_⟩
  · show m.sortedTimes.foldl (· + ·) 0 % wordSize / m.sortedTimes.length = _
    rw [← List.sum_eq_foldl_nat, hsorts.perm.sum_nat, Nat.mod_eq_of_lt hsum, hlength]
  · show _ = some (m.sortedTimes[m.sortedTimes.length / 2]?.getD 0)
    rw [hlength]
    exact getElem?_eq_some_getD (by omega)
  · show _ = some (m.sortedTimes[percentileRank m.sortedTimes.length]?.getD 0)
    rw [hlength]
    have hrank := percentileRank_le times.length
    exact getElem?_eq_some_getD (by omega)
  · show _ = some (m.sortedTimes.getLast?.getD 0)
    rw [List.getLast?_eq_getElem?, hlength]
    exact getElem?_eq_some_getD (by omega)

namespace Reads

variable {s : BatchStats} {times : List Nat}

/-- The median and the percentile lie between the least time and the greatest. -/
theorem bounded (h : Reads s sorted times) (hne : times ≠ []) :
    ∃ least, times.min? = some least ∧ least ≤ s.median ∧ s.median ≤ s.greatest ∧
      least ≤ s.percentile95 ∧ s.percentile95 ≤ s.greatest := by
  have hpos : 0 < times.length := List.length_pos_iff.mpr hne
  have hleast : sorted[0]? = some (sorted[0]?.getD 0) :=
    getElem?_eq_some_getD (h.sorts.length_eq ▸ hpos)
  exact ⟨_, h.sorts.min?_eq hleast, h.sorts.le_of_le hleast h.median (Nat.zero_le _),
    h.sorts.le_of_le h.median h.greatest (by omega),
    h.sorts.le_of_le hleast h.percentile95 (Nat.zero_le _),
    h.sorts.le_of_le h.percentile95 h.greatest (percentileRank_le _)⟩

/-- The median lies in front of the percentile. For one batch and for two the ranks meet. -/
theorem median_le (h : Reads s sorted times) (hne : times ≠ [])
    (hlength : times.length < wordSize) : s.median ≤ s.percentile95 :=
  h.sorts.le_of_le h.median h.percentile95
    (half_le_percentileRank (List.length_pos_iff.mpr hne) hlength)

theorem le_mean (h : Reads s sorted times) {least : Nat} (hleast : times.min? = some least) :
    least ≤ s.mean :=
  h.mean ▸ List.le_sum_div_length_of_min?_eq_some_nat hleast

theorem mean_le (h : Reads s sorted times) : s.mean ≤ s.greatest :=
  h.mean ▸ List.sum_div_length_le_max_of_max?_eq_some_nat (h.sorts.max?_eq h.greatest)

end Reads

/-- The statistics of batches are the order statistics of their times: the mean is rounded down, the
greatest is the greatest, and the median and the percentile are found at their ranks in ascending
order. They lie between the least time and the greatest, and they are the same in whatever order the
batches were recorded. A product in the format gives the rank of the percentile; it is that of
nineteen of twenty times below 2⁴⁸ of them, and not in front of the median as long as a word can
count them. -/
theorem stats_recordAll_are_order_statistics {bs : List Finished} (hne : bs ≠ [])
    (hsum : (bs.map (·.time.microseconds)).sum < wordSize) :
    let times := bs.map (·.time.microseconds)
    let n := bs.length
    let s := (empty.recordAll bs).stats
    s.count = n ∧ times.max? = some s.greatest ∧ s.mean = times.sum / n ∧
    (∃ sorted : List Nat, sorted.Perm times ∧ sorted.Pairwise (· ≤ ·) ∧
      sorted[n / 2]? = some s.median ∧ sorted[percentileRank n]? = some s.percentile95 ∧
      (n < 2 ^ 48 → sorted[min (19 * n / 20) (n - 1)]? = some s.percentile95)) ∧
    (∃ least, times.min? = some least ∧ least ≤ s.median ∧ s.median ≤ s.greatest ∧
      least ≤ s.percentile95 ∧ s.percentile95 ≤ s.greatest ∧ least ≤ s.mean ∧
      s.mean ≤ s.greatest) ∧
    (n < wordSize → s.median ≤ s.percentile95) ∧
    ∀ other, other.Perm bs → (empty.recordAll other).stats = s := by
  intro times n s
  have htimes : (empty.recordAll bs).times.map (·.microseconds) = times := by
    rw [times_recordAll_empty, List.map_map]
    rfl
  have hnonempty : times ≠ [] := mt List.map_eq_nil_iff.mp hne
  have hlength : times.length = n := List.length_map _
  have hreads := reads_stats htimes hnonempty hsum
  obtain ⟨least, hleast, hmedian, hmedian', hpercentile, hpercentile'⟩ :=
    hreads.bounded hnonempty
  have hrank := hlength ▸ hreads.percentile95
  refine ⟨hlength ▸ hreads.count, hreads.sorts.max?_eq hreads.greatest, hlength ▸ hreads.mean,
    ⟨_, hreads.sorts.perm, hreads.sorts.ascending, hlength ▸ hreads.median, hrank,
      fun hfew => percentileRank_eq hfew ▸ hrank⟩,
    ⟨least, hleast, hmedian, hmedian', hpercentile, hpercentile', hreads.le_mean hleast,
      hreads.mean_le⟩,
    fun hword => hreads.median_le hnonempty (hlength ▸ hword),
    fun other hperm => stats_of_perm ?_⟩
  rw [times_recordAll_empty, times_recordAll_empty]
  exact hperm.map _

/-- Three batches, recorded from the slowest to the fastest. -/
theorem stats_recordAll_are_order_statistics_three :
    let bs : List Finished := [⟨1, 1, 1, ⟨9000⟩⟩, ⟨1, 1, 1, ⟨4999⟩⟩, ⟨2, 2, 2, ⟨3000⟩⟩]
    (empty.recordAll bs).stats = ⟨3, 5, 4, 9, 9⟩ ∧
    (empty.recordAll bs.reverse).stats = ⟨3, 5, 4, 9, 9⟩ := by
  intro bs
  have hsum : (bs.map (·.time.microseconds)).sum < wordSize := by decide
  obtain ⟨hcount, hmax, hmean, ⟨sorted, hperm, hascending, hmedian, -, hrank⟩, -, -, hother⟩ :=
    stats_recordAll_are_order_statistics (List.cons_ne_nil _ _) hsum
  obtain rfl : sorted = [3, 4, 9] :=
    Sorts.unique ⟨hperm, hascending⟩ ⟨.refl [3, 4, 9], by decide⟩ (by decide)
  have hstats : (empty.recordAll bs).stats = ⟨3, 5, 4, 9, 9⟩ := by
    rw [BatchStats.mk.injEq]
    exact ⟨hcount, hmean, (Option.some.inj hmedian).symm,
      (Option.some.inj (hrank (by decide))).symm,
      (Option.some.inj hmax).symm⟩
  exact ⟨hstats, (hother _ bs.reverse_perm).trans hstats⟩

end CorpusAnnotator.Metrics
