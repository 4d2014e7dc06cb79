import CorpusAnnotator.Proofs.Results
import CorpusAnnotator.Tensor

/-! Batches as tensors and back. What is packed is unpacked again, and a tensor that can be unpacked
is one that packing makes exactly when it is no wider than it has to be and its padding is zero. -/
namespace CorpusAnnotator.Tensor

open Results

variable {docs : List Document} {d : Document} {bytes : List UInt8} {lengths : List Int}
  {length : Int} {w row rows : Nat} {t : Tensor}

/-! ## The width -/

theorem le_foldl_max (docs : List Document) (w : Nat) :
    w ≤ docs.foldl (fun w d => max w d.length) w := by
  induction docs generalizing w with
  | nil => exact Nat.le_refl w
  | cons d docs ih => exact Nat.le_trans (Nat.le_max_left w d.length) (ih _)

theorem length_le_foldl_max (h : d ∈ docs) (w : Nat) :
    d.length ≤ docs.foldl (fun w d => max w d.length) w := by
  induction docs generalizing w with
  | nil => exact absurd h List.not_mem_nil
  | cons e docs ih =>
    rcases List.mem_cons.mp h with rfl | h
    · exact Nat.le_trans (Nat.le_max_right w d.length) (le_foldl_max docs _)
    · exact ih h _

theorem foldl_max_mem (docs : List Document) (w : Nat) :
    docs.foldl (fun w d => max w d.length) w = w ∨
      ∃ d ∈ docs, d.length = docs.foldl (fun w d => max w d.length) w := by
  induction docs generalizing w with
  | nil => exact .inl rfl
  | cons e docs ih =>
    rw [List.foldl_cons]
    rcases ih (max w e.length) with h | ⟨d, hd, h⟩
    · rw [h]
      rcases Nat.le_total w e.length with hle | hle
      · exact .inr ⟨e, List.mem_cons_self, (Nat.max_eq_right hle).symm⟩
      · exact .inl (Nat.max_eq_left hle)
    · exact .inr ⟨d, List.mem_cons_of_mem e hd, h⟩

theorem width_pos (docs : List Document) : 0 < width docs := le_foldl_max docs 1

theorem length_le_width (h : d ∈ docs) : d.length ≤ width docs := length_le_foldl_max h 1

/-- The width as the lengths of the rows tell it. -/
theorem foldl_max_lengths (docs : List Document) (w : Nat) :
    (docs.map fun d => (d.length : Int)).foldl max (w : Int) =
      (docs.foldl (fun w d => max w d.length) w : Nat) := by
  induction docs generalizing w with
  | nil => rfl
  | cons d docs ih =>
    rw [List.map_cons, List.foldl_cons, List.foldl_cons, ← ih]
    congr 1
    omega

/-! ## Rows of a packed batch -/

theorem length_padded (h : d.length ≤ w) : (padded w d).length = w := by
  rw [padded, List.length_append, List.length_replicate, Nat.add_sub_cancel' h]

theorem getElem?_padded {column : Nat} (h : column < w) :
    (padded w d)[column]? = some (d[column]?.getD 0) := by
  rcases Nat.lt_or_ge column d.length with hlt | hge
  · rw [padded, List.getElem?_append_left hlt, List.getElem?_eq_getElem hlt]
    rfl
  · rw [padded, List.getElem?_append_right hge, List.getElem?_replicate, if_pos (by omega),
      List.getElem?_eq_none hge]
    rfl

theorem length_flatMap_padded (h : ∀ d ∈ docs, d.length ≤ w) :
    (docs.flatMap (padded w)).length = docs.length * w := by
  induction docs with
  | nil => rw [List.flatMap_nil, List.length_nil, List.length_nil, Nat.zero_mul]
  | cons d docs ih =>
    rw [List.flatMap_cons, List.length_append, length_padded (h d List.mem_cons_self),
      ih fun e he => h e (List.mem_cons_of_mem d he), List.length_cons, Nat.succ_mul, Nat.add_comm]

/-- Behind the first rows stand the rows of the other documents. -/
theorem drop_flatMap_padded (h : ∀ d ∈ docs, d.length ≤ w) (row : Nat) :
    (docs.flatMap (padded w)).drop (row * w) = (docs.drop row).flatMap (padded w) := by
  induction docs generalizing row with
  | nil => simp
  | cons d docs ih =>
    cases row with
    | zero => rw [Nat.zero_mul, List.drop_zero, List.drop_zero]
    | succ row =>
      have hlength : (padded w d).length = w := length_padded (h d List.mem_cons_self)
      rw [Nat.succ_mul, Nat.add_comm, ← List.drop_drop, List.flatMap_cons,
        List.drop_append_of_le_length (Nat.le_of_eq hlength.symm),
        List.drop_of_length_le (Nat.le_of_eq hlength), List.nil_append, List.drop_succ_cons]
      exact ih (fun e he => h e (List.mem_cons_of_mem d he)) row

/-- The bytes from the start of a row on begin with its document. -/
theorem drop_bytes_pack (h : docs[row]? = some d) :
    (pack docs).bytes.drop (row * width docs) =
      padded (width docs) d ++ (docs.drop (row + 1)).flatMap (padded (width docs)) := by
  obtain ⟨hrow, rfl⟩ := List.getElem?_eq_some_iff.mp h
  have hdrop := drop_flatMap_padded (fun d (hd : d ∈ docs) => length_le_width hd) row
  rw [List.drop_eq_getElem_cons hrow, List.flatMap_cons] at hdrop
  exact hdrop

theorem getElem?_bytes_pack (h : docs[row]? = some d) {column : Nat} (hcolumn : column < width docs) :
    (pack docs).bytes[row * width docs + column]? = some (d[column]?.getD 0) := by
  have hlength := length_padded (length_le_width (List.mem_of_getElem? h))
  rw [← List.getElem?_drop, drop_bytes_pack h, List.getElem?_append_left (by omega),
    getElem?_padded hcolumn]

theorem length_bytes_pack (docs : List Document) :
    (pack docs).bytes.length = docs.length * width docs :=
  length_flatMap_padded fun _ => length_le_width

/-! ## Products of words -/

theorem product_of_lt {a b : Nat} (h : a * b < Number.wordSize) : product a b = .ok (a * b) :=
  if_pos h

theorem product_eq_error_iff {a b : Nat} {e : Error} :
    product a b = .error e ↔ e = .overflow ∧ Number.wordSize ≤ a * b := by
  unfold product
  split
  · next hlt => exact ⟨nofun, fun h => absurd h.2 (Nat.not_le_of_lt hlt)⟩
  · next hge =>
    rw [Except.error.injEq, eq_comm]
    exact ⟨fun h => ⟨h, Nat.le_of_not_lt hge⟩, And.left⟩

theorem product_eq_ok_iff {a b n : Nat} :
    product a b = .ok n ↔ a * b < Number.wordSize ∧ n = a * b := by
  unfold product
  split
  · next hlt => rw [Except.ok.injEq, eq_comm, and_iff_right hlt]
  · next hge => exact ⟨nofun, fun h => absurd h.1 hge⟩

/-! ## Rows that are unpacked -/

/-- Row `row` of some bytes is there, and its first `length` bytes are `d`. -/
structure RowHolds (bytes : List UInt8) (w row : Nat) (length : Int) (d : Document) : Prop where
  length_eq : length = d.length
  fits : d.length ≤ w
  start_lt : row * w < Number.wordSize
  within : row * w + d.length ≤ bytes.length
  holds : (bytes.drop (row * w)).take d.length = d

/-- The rows from `row` on hold the documents. -/
def RowsHold (bytes : List UInt8) (w row : Nat) (lengths : List Int) (docs : List Document) :
    Prop :=
  lengths.length = docs.length ∧
    ∀ i length d, lengths[i]? = some length → docs[i]? = some d →
      RowHolds bytes w (row + i) length d

theorem rowsHold_nil : RowsHold bytes w row [] docs ↔ docs = [] := by
  constructor
  · rintro ⟨hlength, -⟩
    exact List.length_eq_zero_iff.mp hlength.symm
  · rintro rfl
    exact ⟨rfl, fun i length d h => absurd h (by simp)⟩

theorem rowsHold_cons : RowsHold bytes w row (length :: lengths) docs ↔
    ∃ d rest, docs = d :: rest ∧ RowHolds bytes w row length d ∧
      RowsHold bytes w (row + 1) lengths rest := by
  constructor
  · rintro ⟨hlength, hrows⟩
    cases docs with
    | nil => cases hlength
    | cons d rest =>
      refine ⟨d, rest, rfl, hrows 0 length d rfl rfl, Nat.succ.inj hlength, ?_⟩
      intro i length' d' hi hd
      have hrow := hrows (i + 1) length' d' hi hd
      rwa [← Nat.add_assoc, Nat.add_right_comm] at hrow
  · rintro ⟨d, rest, rfl, hrow, hlength, hrows⟩
    refine ⟨congrArg Nat.succ hlength, ?_⟩
    intro i length' d' hi hd
    cases i with
    | zero =>
      cases hi
      cases hd
      exact hrow
    | succ i =>
      rw [← Nat.add_assoc, Nat.add_right_comm]
      exact hrows i length' d' hi hd

/-- Unpacking gives the documents that the rows hold. -/
theorem unpackRows_eq_ok_iff :
    unpackRows bytes w row lengths = .ok docs ↔ RowsHold bytes w row lengths docs := by
  induction lengths generalizing row docs with
  | nil =>
    rw [unpackRows, rowsHold_nil, Except.ok.injEq]
    exact eq_comm
  | cons length lengths ih =>
    rw [unpackRows, rowsHold_cons]
    constructor
    · intro h
      split at h
      · cases h
      · next hrange =>
        obtain ⟨start, hstart, h⟩ := bind_eq_ok_iff.mp h
        obtain ⟨hlt, rfl⟩ := product_eq_ok_iff.mp hstart
        simp only at h
        split at h
        · cases h
        · next hwithin =>
          obtain ⟨rest, hrest, h⟩ := bind_eq_ok_iff.mp h
          cases h
          have hlength : ((bytes.drop (row * w)).take length.toNat).length = length.toNat := by
            rw [List.length_take, List.length_drop]
            omega
          refine ⟨_, rest, rfl, ⟨?_, ?_, hlt, ?_, ?_⟩, ih.mp hrest⟩
          · omega
          · omega
          · omega
          · rw [hlength]
    · rintro ⟨d, rest, rfl, ⟨rfl, hfits, hlt, hwithin, hholds⟩, hrest⟩
      rw [if_neg (by omega), product_of_lt hlt, ok_bind, Int.toNat_natCast]
      simp only
      rw [if_neg (by omega), ih.mpr hrest, hholds]
      rfl

/-- Where the shape, the bytes and the lengths agree, all depends on the rows. -/
theorem unpack_eq_unpackRows (hshape : t.shape = [(rows : Int), (w : Int)])
    (hword : rows * w < Number.wordSize) (hsize : t.bytes.length = rows * w)
    (hcount : t.lengths.length = rows) : unpack t = unpackRows t.bytes w 0 t.lengths := by
  unfold unpack
  rw [hshape]
  change (product rows w >>= _) = _
  rw [product_of_lt hword, ok_bind, if_neg (not_not_intro hsize), if_neg (not_not_intro hcount)]

/-- A tensor is unpacked when its shape, its bytes and its lengths fit together and every row is
there. -/
theorem unpack_eq_ok_iff : unpack t = .ok docs ↔
    ∃ rows w : Nat, t.shape = [(rows : Int), (w : Int)] ∧ rows * w < Number.wordSize ∧
      t.bytes.length = rows * w ∧ t.lengths.length = rows ∧
      RowsHold t.bytes w 0 t.lengths docs := by
  constructor
  · intro h
    unfold unpack at h
    split at h
    · next rows w hshape =>
      obtain ⟨needed, hneeded, h⟩ := bind_eq_ok_iff.mp h
      obtain ⟨hword, rfl⟩ := product_eq_ok_iff.mp hneeded
      split at h
      · cases h
      · next hsize =>
        split at h
        · cases h
        · next hcount =>
          exact ⟨rows, w, hshape, hword, Decidable.not_not.mp hsize, Decidable.not_not.mp hcount,
            unpackRows_eq_ok_iff.mp h⟩
    · cases h
  · rintro ⟨rows, w, hshape, hword, hsize, hcount, hrows⟩
    rw [unpack_eq_unpackRows hshape hword hsize hcount]
    exact unpackRows_eq_ok_iff.mpr hrows

/-- The lengths of a tensor are those of the documents in it. -/
theorem RowsHold.lengths_eq (h : RowsHold bytes w row lengths docs) :
    lengths = docs.map fun d => (d.length : Int) := by
  apply List.ext_getElem?
  intro i
  rw [List.getElem?_map]
  rcases Nat.lt_or_ge i docs.length with hi | hi
  · have hi' : i < lengths.length := h.1 ▸ hi
    have hrow := h.2 i _ _ (List.getElem?_eq_getElem hi') (List.getElem?_eq_getElem hi)
    rw [List.getElem?_eq_getElem hi', List.getElem?_eq_getElem hi, hrow.length_eq]
    rfl
  · rw [List.getElem?_eq_none hi, List.getElem?_eq_none (h.1 ▸ hi)]
    rfl

/-! ## There and back -/

/-- A batch that fits into memory is unpacked from its tensor. -/
theorem unpack_pack (h : docs.length * width docs < Number.wordSize) :
    unpack (pack docs) = .ok docs := by
  refine unpack_eq_ok_iff.mpr ⟨docs.length, width docs, rfl, h, length_bytes_pack docs,
    List.length_map _, List.length_map _, ?_⟩
  intro row length d hlength hd
  have hrow : row < docs.length := (List.getElem?_eq_some_iff.mp hd).1
  have hfits : d.length ≤ width docs := length_le_width (List.mem_of_getElem? hd)
  have hend : (row + 1) * width docs ≤ docs.length * width docs := Nat.mul_le_mul_right _ hrow
  rw [Nat.succ_mul] at hend
  rw [Nat.zero_add]
  refine ⟨?_, hfits, by omega, ?_, ?_⟩
  · rw [pack, List.getElem?_map, hd] at hlength
    exact (Option.some.inj hlength).symm
  · rw [length_bytes_pack]
    omega
  · rw [drop_bytes_pack hd, padded, List.append_assoc, List.take_left]

/-- A tensor no wider than its longest row, or of width one where no row is longer, with nothing but
zeros behind the rows. -/
structure Canonical (t : Tensor) (rows w : Nat) : Prop where
  shape : t.shape = [(rows : Int), (w : Int)]
  tight : (w : Int) = t.lengths.foldl max 1
  zeros : ∀ (row : Nat) (length : Int), t.lengths[row]? = some length →
    ∀ column : Nat, length ≤ column → column < w → t.bytes[row * w + column]? = some 0

theorem canonical_pack (docs : List Document) :
    Canonical (pack docs) docs.length (width docs) where
  shape := rfl
  tight := (foldl_max_lengths docs 1).symm
  zeros row length hlength column hbehind hcolumn := by
    rw [pack, List.getElem?_map] at hlength
    obtain ⟨d, hd, rfl⟩ := Option.map_eq_some_iff.mp hlength
    rw [getElem?_bytes_pack hd hcolumn, List.getElem?_eq_none (by omega)]
    rfl

/-- The bytes of a canonical tensor are those that packing puts in their places. -/
theorem Canonical.getElem?_bytes (hcanonical : Canonical t rows w)
    (hrows : RowsHold t.bytes w 0 t.lengths docs) (hd : docs[row]? = some d) {column : Nat}
    (hcolumn : column < w) : t.bytes[row * w + column]? = some (d[column]?.getD 0) := by
  have hlength : t.lengths[row]? = some (d.length : Int) := by
    rw [hrows.lengths_eq, List.getElem?_map, hd]
    rfl
  rcases Nat.lt_or_ge column d.length with hinside | hbehind
  · have hholds := (hrows.2 row _ d hlength hd).holds
    rw [Nat.zero_add] at hholds
    have hsame : ((t.bytes.drop (row * w)).take d.length)[column]? = d[column]? :=
      congrArg (fun d : Document => d[column]?) hholds
    rw [List.getElem?_take_of_lt hinside, List.getElem?_drop] at hsame
    rw [hsame, List.getElem?_eq_getElem hinside, Option.getD_some]
  · rw [hcanonical.zeros row _ hlength column (Int.ofNat_le.mpr hbehind) hcolumn,
      List.getElem?_eq_none hbehind, Option.getD_none]

/-- What has been unpacked from a canonical tensor makes that tensor again. -/
theorem Canonical.pack_eq (hcanonical : Canonical t rows w) (h : unpack t = .ok docs) :
    pack docs = t := by
  obtain ⟨rows', w', hshape, -, hsize, hcount, hrows⟩ := unpack_eq_ok_iff.mp h
  obtain ⟨rfl, rfl⟩ : rows' = rows ∧ w' = w := by
    have hsame := hshape.symm.trans hcanonical.shape
    simp only [List.cons.injEq, Int.natCast_inj, and_true] at hsame
    exact hsame
  have hdocs : docs.length = rows' := hrows.1.symm.trans hcount
  have hwidth : width docs = w' := by
    have htight := hcanonical.tight
    rw [hrows.lengths_eq] at htight
    exact Int.natCast_inj.mp ((foldl_max_lengths docs 1).symm.trans htight.symm)
  have hbytes : (pack docs).bytes = t.bytes := by
    apply List.ext_getElem?
    intro i
    rcases Nat.lt_or_ge i (rows' * w') with hi | hi
    · -- byte `i` stands in row `i / w'`
      have hw : 0 < w' := hwidth ▸ width_pos docs
      have hcolumn : i % w' < w' := Nat.mod_lt i hw
      have hrow : i / w' < docs.length := hdocs ▸ (Nat.div_lt_iff_lt_mul hw).mpr hi
      have hd : docs[i / w']? = some docs[i / w'] := List.getElem?_eq_getElem hrow
      have hpacked := getElem?_bytes_pack hd (hwidth.symm ▸ hcolumn)
      have hheld := hcanonical.getElem?_bytes hrows hd hcolumn
      rw [hwidth, Nat.div_add_mod' i w'] at hpacked
      rw [Nat.div_add_mod' i w'] at hheld
      exact hpacked.trans hheld.symm
    · rw [List.getElem?_eq_none (by rw [length_bytes_pack, hdocs, hwidth]; exact hi),
        List.getElem?_eq_none (by rw [hsize]; exact hi)]
  obtain ⟨shape, bytes, lengths⟩ := t
  rw [pack, Tensor.mk.injEq]
  exact ⟨by rw [hdocs, hwidth]; exact hshape.symm, hbytes, hrows.lengths_eq.symm⟩

/-- Packing and unpacking undo one another. A packed batch has one row for each document, as wide as
the longest one and at least of width one, with zeros behind the document, and every batch that fits
into memory is unpacked from it. A tensor that can be unpacked comes back from its documents exactly
when it is canonical. -/
theorem pack_unpack_inverse :
    (∀ docs, docs.length * width docs < Number.wordSize → unpack (pack docs) = .ok docs) ∧
    (∀ docs, (pack docs).shape = [(docs.length : Int), (width docs : Int)] ∧
      (pack docs).lengths = docs.map (fun d => (d.length : Int)) ∧
      (pack docs).bytes.length = docs.length * width docs ∧
      ∀ (row : Nat) (d : Document), docs[row]? = some d → ∀ column < width docs,
        (pack docs).bytes[row * width docs + column]? = some (d[column]?.getD 0)) ∧
    (∀ docs, 1 ≤ width docs ∧ (∀ d ∈ docs, d.length ≤ width docs) ∧
      (width docs = 1 ∨ ∃ d ∈ docs, d.length = width docs)) ∧
    (∀ t docs, unpack t = .ok docs → (pack docs = t ↔ ∃ rows w, Canonical t rows w)) := by
  refine ⟨fun docs h => unpack_pack h, ?_, ?_, ?_⟩
  · intro docs
    exact ⟨rfl, rfl, length_bytes_pack docs, fun row d hd column h => getElem?_bytes_pack hd h⟩
  · intro docs
    exact ⟨width_pos docs, fun d hd => length_le_width hd, foldl_max_mem docs 1⟩
  · intro t docs h
    constructor
    · rintro rfl
      exact ⟨_, _, canonical_pack docs⟩
    · rintro ⟨rows, w, hcanonical⟩
      exact hcanonical.pack_eq h

/-- A batch with an empty document and one that ends with a zero comes back. A tensor that is wider
than its rows can be unpacked, but does not. -/
theorem pack_unpack_inverse_trailing_zero :
    unpack (pack [[5, 6, 7], [], [1, 0]]) = .ok [[5, 6, 7], [], [1, 0]] ∧
      unpack ⟨[2, 2], [5, 0, 0, 0], [1, 0]⟩ = .ok [[5], []] ∧
      pack [[5], []] ≠ ⟨[2, 2], [5, 0, 0, 0], [1, 0]⟩ := by
  obtain ⟨hinverse, -, -, hcanonical⟩ := pack_unpack_inverse
  refine ⟨hinverse _ (by decide), rfl, ?_⟩
  intro heq
  obtain ⟨rows, w, h⟩ := (hcanonical ⟨[2, 2], [5, 0, 0, 0], [1, 0]⟩ [[5], []] rfl).mp heq
  have hshape := h.shape
  have htight := h.tight
  simp only [List.cons.injEq, List.foldl_cons, List.foldl_nil, and_true] at hshape htight
  omega

end CorpusAnnotator.Tensor
