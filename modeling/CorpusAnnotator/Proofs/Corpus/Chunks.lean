import CorpusAnnotator.Corpus.Basic

/-! Consecutive parts of a list by their number: where part `k` starts and ends, how many parts
there are, and where an item of all parts together comes from. -/
namespace CorpusAnnotator

variable {α β : Type} {size : Nat}

/-- Part `k`: at most `size` items, from behind all earlier parts. -/
def chunk (size : Nat) (items : List α) (k : Nat) : List α :=
  (items.drop (k * size)).take size

/-- The number of parts: that of the items by the size, rounded up. -/
def chunkCount (size : Nat) (items : List α) : Nat :=
  (items.length + (size - 1)) / size

theorem lt_chunkCount_iff (h : size ≠ 0) {items : List α} {k : Nat} :
    k < chunkCount size items ↔ k * size < items.length := by
  have hpos : 0 < size := Nat.pos_of_ne_zero h
  rw [chunkCount, Nat.lt_iff_add_one_le, Nat.le_div_iff_mul_le hpos, Nat.succ_mul]
  omega

theorem length_chunk (items : List α) (k : Nat) :
    (chunk size items k).length = min size (items.length - k * size) := by
  rw [chunk, List.length_take, List.length_drop]

theorem chunk_ne_nil (h : size ≠ 0) {items : List α} {k : Nat} (hk : k < chunkCount size items) :
    chunk size items k ≠ [] := by
  intro hnil
  have hlength : (chunk size items k).length = _ := length_chunk items k
  rw [hnil, List.length_nil] at hlength
  have := (lt_chunkCount_iff h).mp hk
  omega

/-- Every part but the last is full. -/
theorem length_chunk_of_succ_lt (h : size ≠ 0) {items : List α} {k : Nat}
    (hk : k + 1 < chunkCount size items) : (chunk size items k).length = size := by
  have hlt := (lt_chunkCount_iff h).mp hk
  rw [Nat.succ_mul] at hlt
  rw [length_chunk]
  omega

/-! ## All parts -/

theorem chunkCount_cons (item : α) (rest : List α) :
    chunkCount (size + 1) (item :: rest) = chunkCount (size + 1) (rest.drop size) + 1 := by
  have hsize : size + 1 ≠ 0 := Nat.succ_ne_zero size
  apply Nat.le_antisymm
  · apply Nat.le_of_not_lt
    intro hlt
    have hlt := (lt_chunkCount_iff hsize).mp hlt
    have hge : ¬ chunkCount (size + 1) (rest.drop size) < chunkCount (size + 1) (rest.drop size) :=
      Nat.lt_irrefl _
    rw [lt_chunkCount_iff hsize] at hge
    rw [Nat.succ_mul, List.length_cons] at hlt
    rw [List.length_drop] at hge
    omega
  · apply Nat.succ_le_of_lt
    rw [lt_chunkCount_iff hsize]
    -- there may be no part behind the first
    cases hcount : chunkCount (size + 1) (rest.drop size) with
    | zero => simp
    | succ k =>
      have hk : k < chunkCount (size + 1) (rest.drop size) := by omega
      have hk := (lt_chunkCount_iff hsize).mp hk
      rw [List.length_drop] at hk
      rw [Nat.succ_mul, List.length_cons]
      omega

theorem chunk_cons_succ (item : α) (rest : List α) (k : Nat) :
    chunk (size + 1) (item :: rest) (k + 1) = chunk (size + 1) (rest.drop size) k := by
  rw [chunk, chunk, Nat.succ_mul, Nat.add_comm (k * (size + 1)), ← List.drop_drop,
    List.drop_succ_cons]

/-- Cutting a list gives its parts in their order. -/
theorem chunks_eq_map_chunk (h : size ≠ 0) (items : List α) :
    chunks size items = (List.range (chunkCount size items)).map (chunk size items) := by
  fun_induction chunks size items with
  | case1 => exact absurd rfl h
  | case2 size =>
    have hcount : chunkCount size ([] : List α) = 0 := by
      apply Nat.eq_zero_of_not_pos
      rw [lt_chunkCount_iff h]
      simp
    rw [hcount]
    rfl
  | case3 size item rest ih =>
    rw [chunkCount_cons, List.range_succ_eq_map, List.map_cons, List.map_map, ih h]
    congr 1
    · rw [chunk, Nat.zero_mul, List.drop_zero, List.take_succ_cons]
    · apply List.map_congr_left
      intro k _
      exact (chunk_cons_succ item rest k).symm

/-- The first parts make up a front of the list. -/
theorem flatMap_chunk (size : Nat) (items : List α) (n : Nat) :
    (List.range n).flatMap (chunk size items) = items.take (n * size) := by
  induction n with
  | zero => simp
  | succ n ih =>
    rw [List.range_succ, List.flatMap_append, ih, List.flatMap_singleton, chunk, Nat.succ_mul,
      List.take_add]

/-- All parts together hold all items. -/
theorem length_le_chunkCount_mul (h : size ≠ 0) (items : List α) :
    items.length ≤ chunkCount size items * size :=
  Nat.le_of_not_lt fun hlt => Nat.lt_irrefl _ ((lt_chunkCount_iff h).mpr hlt)

theorem flatMap_chunk_chunkCount (h : size ≠ 0) (items : List α) :
    (List.range (chunkCount size items)).flatMap (chunk size items) = items := by
  rw [flatMap_chunk, List.take_of_length_le (length_le_chunkCount_mul h items)]

theorem div_lt_chunkCount (h : size ≠ 0) {items : List α} {i : Nat} (hi : i < items.length) :
    i / size < chunkCount size items := by
  rw [lt_chunkCount_iff h]
  exact Nat.lt_of_le_of_lt (Nat.div_mul_le_self i size) hi

/-- Item `i` is in part `i / size`, as number `i % size`. -/
theorem getElem?_chunk (h : size ≠ 0) (items : List α) (i : Nat) :
    (chunk size items (i / size))[i % size]? = items[i]? := by
  have hlt : i % size < size := Nat.mod_lt i (Nat.pos_of_ne_zero h)
  rw [chunk, List.getElem?_take_of_lt hlt, List.getElem?_drop, Nat.div_add_mod']

/-! ## Items of all parts together -/

theorem length_flatMap_congr {f : Nat → List α} {g : Nat → List β} {ks : List Nat}
    (h : ∀ k ∈ ks, (f k).length = (g k).length) :
    (ks.flatMap f).length = (ks.flatMap g).length := by
  rw [List.length_flatMap, List.length_flatMap, List.map_congr_left h]

/-- Where every part but the last has `size` items, item `i` of all of them is item `i % size` of
part `i / size`. -/
theorem getElem?_flatMap_range (h : size ≠ 0) (f : Nat → List β) {n i : Nat}
    (hfull : ∀ k, k + 1 < n → (f k).length = size) (hi : i / size < n) :
    ((List.range n).flatMap f)[i]? = (f (i / size))[i % size]? := by
  induction n generalizing f i with
  | zero => exact absurd hi (Nat.not_lt_zero _)
  | succ n ih =>
    rw [List.range_succ_eq_map, List.flatMap_cons, List.flatMap_map]
    -- item `i` is in the first part, or is item `i - size` of the parts behind it
    by_cases hlt : i < size
    · rw [Nat.div_eq_of_lt hlt, Nat.mod_eq_of_lt hlt]
      cases n with
      | zero => simp
      | succ n =>
        have hlength : (f 0).length = size := hfull 0 (by omega)
        rw [List.getElem?_append_left (by omega)]
    · have hpos : 0 < size := Nat.pos_of_ne_zero h
      have hdiv : i / size = (i - size) / size + 1 := Nat.div_eq_sub_div hpos (by omega)
      have hmod : i % size = (i - size) % size := Nat.mod_eq_sub_mod (by omega)
      have hlast : (i - size) / size < n := by
        rw [hdiv] at hi
        exact Nat.lt_of_succ_lt_succ hi
      have hlength : (f 0).length = size := hfull 0 (Nat.succ_lt_succ (Nat.zero_lt_of_lt hlast))
      rw [List.getElem?_append_right (by omega), hlength, hdiv, hmod]
      exact ih (f ∘ Nat.succ) (fun k hk => hfull (k + 1) (by omega)) hlast

end CorpusAnnotator
