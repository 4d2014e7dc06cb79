import CorpusAnnotator.Proofs.Tensor.RoundTrip

/-! Which tensors are unpacked, and what is said of the others. The number of bytes that a shape
asks for is a machine word. Where it is too large for one, unpacking breaks off at the product,
before a byte or a length has been looked at; nothing else breaks it off. -/
namespace CorpusAnnotator.Tensor

open Results

variable {docs : List Document} {bytes : List UInt8} {lengths : List Int} {length : Int}
  {w row rows : Nat} {t : Tensor} {e : Error}

/-- A row has no more bytes than the matrix is wide. -/
def Inside (length : Int) (w : Nat) : Prop := 0 ≤ length ∧ length ≤ w

instance (length : Int) (w : Nat) : Decidable (Inside length w) :=
  inferInstanceAs (Decidable (_ ∧ _))

/-! ## Row by row -/

theorem unpackRows_of_not_inside (h : ¬ Inside length w) :
    unpackRows bytes w row (length :: lengths) = .error (.badLength row length w) := by
  unfold Inside at h
  rw [unpackRows, if_pos (by omega)]

/-- A row that is there gives its document. -/
theorem unpackRows_of_inside (hword : bytes.length < Number.wordSize)
    (hrow : (row + 1) * w ≤ bytes.length) (h : Inside length w) :
    unpackRows bytes w row (length :: lengths) =
      (unpackRows bytes w (row + 1) lengths).map
        ((bytes.drop (row * w)).take length.toNat :: ·) := by
  obtain ⟨hpos, hle⟩ := h
  rw [Nat.succ_mul] at hrow
  rw [unpackRows, if_neg (by omega), product_of_lt (by omega), ok_bind]
  simp only
  rw [if_neg (by omega)]
  cases unpackRows bytes w (row + 1) lengths <;> rfl

/-- With room for all rows, the next row is there and so is what follows it. -/
theorem room_cons (h : (row + (length :: lengths).length) * w ≤ bytes.length) :
    (row + 1) * w ≤ bytes.length ∧ (row + 1 + lengths.length) * w ≤ bytes.length := by
  rw [List.length_cons, ← Nat.add_assoc, Nat.add_right_comm] at h
  exact ⟨Nat.le_trans (Nat.mul_le_mul_right w (Nat.le_add_right _ _)) h, h⟩

theorem unpackRows_of_forall_inside (hword : bytes.length < Number.wordSize)
    (hroom : (row + lengths.length) * w ≤ bytes.length) (h : ∀ length ∈ lengths, Inside length w) :
    unpackRows bytes w row lengths = .ok (lengths.mapIdx fun i length =>
      (bytes.drop ((row + i) * w)).take length.toNat) := by
  induction lengths generalizing row with
  | nil => rfl
  | cons length lengths ih =>
    obtain ⟨hrow, hroom⟩ := room_cons hroom
    obtain ⟨hfirst, hrest⟩ := List.forall_mem_cons.mp h
    rw [unpackRows_of_inside hword hrow hfirst, ih hroom hrest, map_ok, List.mapIdx_cons]
    simp only [Nat.add_zero, Nat.add_right_comm row 1, Nat.add_assoc]

/-- With room for all rows, unpacking fails with the first length that is no length of a row. -/
theorem unpackRows_eq_error_iff (hword : bytes.length < Number.wordSize)
    (hroom : (row + lengths.length) * w ≤ bytes.length) :
    unpackRows bytes w row lengths = .error e ↔
      ∃ i length, lengths[i]? = some length ∧ (¬ Inside length w ∧
        e = .badLength (row + i) length w) ∧
        ∀ j < i, ∀ l, lengths[j]? = some l → Inside l w := by
  induction lengths generalizing row with
  | nil => simp [unpackRows]
  | cons length lengths ih =>
    obtain ⟨hrow, hroom⟩ := room_cons hroom
    have hnext : ∀ i, row + 1 + i = row + (i + 1) := by omega
    -- the length in front is the first one, or it is in order and the first one is behind it
    refine Iff.trans ?_ Nat.or_exists_add_one
    simp only [Nat.forall_lt_succ_left, List.getElem?_cons_zero, List.getElem?_cons_succ]
    by_cases hinside : Inside length w
    · rw [unpackRows_of_inside hword hrow hinside, map_eq_error_iff, ih hroom]
      simp [hinside, hnext]
    · rw [unpackRows_of_not_inside hinside]
      simp [hinside, eq_comm]

/-! ## Whole tensors -/

/-- A tensor whose parts fit together: as many bytes as the shape asks for, and a length for each
row, of no more bytes than the row has. -/
structure WellFormed (t : Tensor) (rows w : Nat) : Prop where
  shape : t.shape = [(rows : Int), (w : Int)]
  size : t.bytes.length = rows * w
  count : t.lengths.length = rows
  inside : ∀ length ∈ t.lengths, Inside length w

/-- The rows of a tensor without their padding. -/
def documents (t : Tensor) (w : Nat) : List Document :=
  t.lengths.mapIdx fun row length => (t.bytes.drop (row * w)).take length.toNat

/-- A row of a tensor that has all its bytes is among them. -/
theorem row_within (hsize : t.bytes.length = rows * w) (hcount : t.lengths.length = rows)
    (hlength : t.lengths[row]? = some length) (hinside : Inside length w) :
    row * w + length.toNat ≤ t.bytes.length := by
  have hrow : row < rows := hcount ▸ (List.getElem?_eq_some_iff.mp hlength).1
  have hend : (row + 1) * w ≤ rows * w := Nat.mul_le_mul_right w hrow
  obtain ⟨hpos, hle⟩ := hinside
  rw [Nat.succ_mul] at hend
  omega

/-- A tensor that has all its bytes has room for all its rows. -/
theorem room_of_size (hsize : t.bytes.length = rows * w) (hcount : t.lengths.length = rows) :
    (0 + t.lengths.length) * w ≤ t.bytes.length :=
  Nat.le_of_eq (by rw [Nat.zero_add, hcount, hsize])

/-! ## Acceptance -/

theorem WellFormed.unpack_eq (h : t.WellFormed rows w) (hword : t.bytes.length < Number.wordSize) :
    unpack t = .ok (t.documents w) := by
  rw [unpack_eq_unpackRows h.shape (h.size ▸ hword) h.size h.count,
    unpackRows_of_forall_inside hword (room_of_size h.size h.count) h.inside]
  simp only [Nat.zero_add, documents]

/-- A tensor that is unpacked is well formed. -/
theorem exists_wellFormed_of_unpack (h : unpack t = .ok docs) : ∃ rows w, t.WellFormed rows w := by
  obtain ⟨rows, w, hshape, -, hsize, hcount, hrows⟩ := unpack_eq_ok_iff.mp h
  refine ⟨rows, w, hshape, hsize, hcount, fun length hlength => ?_⟩
  obtain ⟨row, hrow⟩ := List.getElem?_of_mem hlength
  have hdoc : row < docs.length := hrows.1 ▸ (List.getElem?_eq_some_iff.mp hrow).1
  obtain ⟨rfl, hfits, -⟩ := hrows.2 row length _ hrow (List.getElem?_eq_getElem hdoc)
  exact ⟨Int.natCast_nonneg _, Int.ofNat_le.mpr hfits⟩

theorem unpack_eq_ok_iff_wellFormed (hword : t.bytes.length < Number.wordSize) :
    unpack t = .ok docs ↔ ∃ rows w, t.WellFormed rows w ∧ docs = t.documents w := by
  constructor
  · intro h
    obtain ⟨rows, w, hwell⟩ := exists_wellFormed_of_unpack h
    exact ⟨rows, w, hwell, Except.ok.inj (h.symm.trans (hwell.unpack_eq hword))⟩
  · rintro ⟨rows, w, hwell, rfl⟩
    exact hwell.unpack_eq hword

/-! ## Refusal -/

/-- What is said of a tensor that is not unpacked. Of several things that are wrong with it, the one
that is said is that of the first constructor. -/
inductive Refuses (t : Tensor) : Error → Prop
  | badShape (h : ∀ rows w : Nat, t.shape ≠ [(rows : Int), (w : Int)]) :
    Refuses t (.badShape t.shape)
  | overflow {rows w : Nat} (hshape : t.shape = [(rows : Int), (w : Int)])
    (h : Number.wordSize ≤ rows * w) : Refuses t .overflow
  | badSize {rows w : Nat} (hshape : t.shape = [(rows : Int), (w : Int)])
    (hword : rows * w < Number.wordSize) (h : t.bytes.length ≠ rows * w) :
    Refuses t (.badSize t.bytes.length t.shape (rows * w))
  | badCount {rows w : Nat} (hshape : t.shape = [(rows : Int), (w : Int)])
    (hword : rows * w < Number.wordSize) (hsize : t.bytes.length = rows * w)
    (h : t.lengths.length ≠ rows) : Refuses t (.badCount t.lengths.length rows)
  | badLength {rows w row : Nat} {length : Int} (hshape : t.shape = [(rows : Int), (w : Int)])
    (hword : rows * w < Number.wordSize) (hsize : t.bytes.length = rows * w)
    (hcount : t.lengths.length = rows) (hlength : t.lengths[row]? = some length)
    (h : ¬ Inside length w) (hfirst : ∀ i < row, ∀ l, t.lengths[i]? = some l → Inside l w) :
    Refuses t (.badLength row length w)

theorem refuses_of_unpack (h : unpack t = .error e) : t.Refuses e := by
  unfold unpack at h
  split at h
  · next rows w hshape =>
    rcases bind_eq_error_iff.mp h with h | ⟨needed, hneeded, h⟩
    · obtain ⟨rfl, hle⟩ := product_eq_error_iff.mp h
      exact .overflow hshape hle
    obtain ⟨hword, rfl⟩ := product_eq_ok_iff.mp hneeded
    split at h
    · next hsize =>
      cases h
      exact .badSize hshape hword hsize
    · next hsize =>
      have hsize := Decidable.not_not.mp hsize
      split at h
      · next hcount =>
        cases h
        exact .badCount hshape hword hsize hcount
      · next hcount =>
        have hcount := Decidable.not_not.mp hcount
        obtain ⟨row, length, hlength, ⟨hbad, rfl⟩, hfirst⟩ :=
          (unpackRows_eq_error_iff (hsize ▸ hword) (room_of_size hsize hcount)).mp h
        rw [Nat.zero_add]
        exact .badLength hshape hword hsize hcount hlength hbad hfirst
  · next hshape =>
    cases h
    exact .badShape hshape

theorem Refuses.unpack_eq (h : t.Refuses e) : unpack t = .error e := by
  cases h with
  | badShape h =>
    unfold unpack
    split
    · next rows w hshape => exact absurd hshape (h rows w)
    · rfl
  | overflow hshape h =>
    unfold unpack
    rw [hshape]
    exact bind_eq_error_iff.mpr (.inl (product_eq_error_iff.mpr ⟨rfl, h⟩))
  | badSize hshape hword h =>
    unfold unpack
    rw [hshape]
    exact bind_eq_error_iff.mpr (.inr ⟨_, product_of_lt hword, if_pos h⟩)
  | badCount hshape hword hsize h =>
    unfold unpack
    rw [hshape]
    exact bind_eq_error_iff.mpr (.inr ⟨_, product_of_lt hword,
      (if_neg (not_not_intro hsize)).trans (if_pos h)⟩)
  | badLength hshape hword hsize hcount hlength h hfirst =>
    rw [unpack_eq_unpackRows hshape hword hsize hcount,
      unpackRows_eq_error_iff (hsize ▸ hword) (room_of_size hsize hcount)]
    exact ⟨_, _, hlength, ⟨h, by rw [Nat.zero_add]⟩, hfirst⟩

theorem unpack_eq_error_iff : unpack t = .error e ↔ t.Refuses e :=
  ⟨refuses_of_unpack, Refuses.unpack_eq⟩

/-- Unpacking breaks off exactly where the shape asks for more bytes than a word counts. -/
theorem unpack_eq_overflow_iff : unpack t = .error .overflow ↔
    ∃ rows w : Nat, t.shape = [(rows : Int), (w : Int)] ∧ Number.wordSize ≤ rows * w := by
  rw [unpack_eq_error_iff]
  constructor
  · intro h
    cases h with
    | overflow hshape h => exact ⟨_, _, hshape, h⟩
  · rintro ⟨rows, w, hshape, h⟩
    exact .overflow hshape h

/-- No row ends past the last byte. -/
theorem unpack_ne_outOfBounds (finish held : Nat) :
    unpack t ≠ .error (.outOfBounds finish held) := by
  intro h
  cases refuses_of_unpack h

/-! ## Padding -/

/-- Two tensors that can only differ behind the ends of their rows. -/
structure SameRows (t t' : Tensor) : Prop where
  shape : t'.shape = t.shape
  lengths : t'.lengths = t.lengths
  size : t'.bytes.length = t.bytes.length
  rows : ∀ rows w : Nat, t.shape = [(rows : Int), (w : Int)] →
    ∀ (row : Nat) (length : Int), t.lengths[row]? = some length →
      ∀ column : Nat, column < length → t'.bytes[row * w + column]? = t.bytes[row * w + column]?

variable {t' : Tensor}

theorem SameRows.documents_eq (h : SameRows t t') (hwell : t.WellFormed rows w) :
    t'.documents w = t.documents w := by
  apply List.ext_getElem?
  intro row
  rw [documents, documents, h.lengths, List.getElem?_mapIdx, List.getElem?_mapIdx]
  cases hlength : t.lengths[row]? with
  | none => rfl
  | some length =>
    rw [Option.map_some, Option.map_some, Option.some.injEq]
    apply List.ext_getElem?
    intro column
    rw [List.getElem?_take, List.getElem?_take]
    split
    · rw [List.getElem?_drop, List.getElem?_drop]
      exact h.rows rows w hwell.shape row length hlength column (by omega)
    · rfl

/-- What is said of a tensor does not depend on its padding. -/
theorem SameRows.refuses (h : SameRows t t') (hrefuses : t.Refuses e) : t'.Refuses e := by
  obtain ⟨shape', bytes', lengths'⟩ := t'
  obtain ⟨rfl, rfl, hsize, -⟩ := h
  cases hrefuses with
  | badShape h => exact .badShape h
  | overflow hshape h => exact .overflow hshape h
  | badSize hshape hword h => exact hsize ▸ .badSize hshape hword (hsize.symm ▸ h)
  | badCount hshape hword hheld h => exact .badCount hshape hword (hsize.trans hheld) h
  | badLength hshape hword hheld hcount hlength h hfirst =>
    exact .badLength hshape hword (hsize.trans hheld) hcount hlength h hfirst

/-- What stands behind the rows makes no difference. -/
theorem SameRows.unpack_eq (h : SameRows t t') (hword : t.bytes.length < Number.wordSize) :
    unpack t' = unpack t := by
  cases hunpacked : unpack t with
  | error e => exact (h.refuses (refuses_of_unpack hunpacked)).unpack_eq
  | ok docs =>
    obtain ⟨rows, w, hwell, rfl⟩ := (unpack_eq_ok_iff_wellFormed hword).mp hunpacked
    have hwell' : t'.WellFormed rows w :=
      ⟨h.shape.trans hwell.shape, h.size.trans hwell.size,
        h.lengths ▸ hwell.count, h.lengths ▸ hwell.inside⟩
    rw [hwell'.unpack_eq (h.size ▸ hword), h.documents_eq hwell]

/-! ## Every tensor -/

/-- Of the tensors in memory, just the well-formed ones are unpacked. Then document `i` is row `i`
without its padding, which makes no difference. Every other tensor is refused for the first thing
that is wrong with it, so where only lengths are at fault, for the first of them. Unpacking breaks
off where the size that a shape asks for is no word, and nowhere else: no row ends past the last
byte. -/
theorem unpack_decides_wellFormed (hword : t.bytes.length < Number.wordSize) :
    (∀ docs, unpack t = .ok docs ↔ ∃ rows w, t.WellFormed rows w ∧ docs = t.documents w) ∧
    (∀ rows w, t.WellFormed rows w → ∀ (row : Nat) (length : Int),
      t.lengths[row]? = some length → row * w + length.toNat ≤ t.bytes.length) ∧
    (∀ t', SameRows t t' → unpack t' = unpack t) ∧
    (∀ rows w : Nat, t.shape = [(rows : Int), (w : Int)] → t.bytes.length = rows * w →
      t.lengths.length = rows → ∀ (row : Nat) (length : Int), t.lengths[row]? = some length →
        ¬ Inside length w → (∀ i < row, ∀ l, t.lengths[i]? = some l → Inside l w) →
          unpack t = .error (.badLength row length w)) ∧
    (∀ e, unpack t = .error e ↔ t.Refuses e) ∧
    (unpack t = .error .overflow ↔
      ∃ rows w : Nat, t.shape = [(rows : Int), (w : Int)] ∧ Number.wordSize ≤ rows * w) ∧
    (∀ finish held, unpack t ≠ .error (.outOfBounds finish held)) := by
  refine ⟨fun docs => unpack_eq_ok_iff_wellFormed hword, ?_, fun t' h => h.unpack_eq hword, ?_,
    fun e => unpack_eq_error_iff, unpack_eq_overflow_iff, unpack_ne_outOfBounds⟩
  · intro rows w hwell row length hlength
    exact row_within hwell.size hwell.count hlength
      (hwell.inside length (List.mem_of_getElem? hlength))
  · intro rows w hshape hsize hcount row length hlength hbad hfirst
    exact Refuses.unpack_eq (.badLength hshape (hsize ▸ hword) hsize hcount hlength hbad hfirst)

/-- A tensor of two rows is unpacked whatever its padding is, and refused for the second row where
that is too long for it. -/
theorem unpack_decides_wellFormed_two_rows :
    unpack ⟨[2, 3], [1, 2, 9, 3, 9, 9], [2, 1]⟩ = .ok [[1, 2], [3]] ∧
      unpack ⟨[2, 3], [1, 2, 0, 3, 0, 0], [2, 1]⟩ = .ok [[1, 2], [3]] ∧
      unpack ⟨[2, 3], [1, 2, 9, 3, 9, 9], [2, 4]⟩ = .error (.badLength 1 4 3) := by
  obtain ⟨hok, -, hpadding, -⟩ := unpack_decides_wellFormed
    (t := ⟨[2, 3], [1, 2, 9, 3, 9, 9], [2, 1]⟩) (by decide)
  obtain ⟨-, -, -, hlength, -⟩ := unpack_decides_wellFormed
    (t := ⟨[2, 3], [1, 2, 9, 3, 9, 9], [2, 4]⟩) (by decide)
  have hfirst : unpack ⟨[2, 3], [1, 2, 9, 3, 9, 9], [2, 1]⟩ = .ok [[1, 2], [3]] :=
    (hok _).mpr ⟨2, 3, ⟨rfl, rfl, rfl, by decide⟩, rfl⟩
  refine ⟨hfirst, (hpadding _ ⟨rfl, rfl, rfl, ?_⟩).trans hfirst, ?_⟩
  · intro rows w hshape row length hlength column hcolumn
    obtain ⟨rfl, rfl⟩ : rows = 2 ∧ w = 3 := by
      simp only [List.cons.injEq, and_true] at hshape
      omega
    have hrow : row = 0 ∨ row = 1 := by
      have := (List.getElem?_eq_some_iff.mp hlength).1
      simp only [List.length_cons, List.length_nil] at this
      omega
    rcases hrow with rfl | rfl
    · cases hlength
      have hcolumn : column = 0 ∨ column = 1 := by omega
      rcases hcolumn with rfl | rfl <;> rfl
    · cases hlength
      obtain rfl : column = 0 := by omega
      rfl
  · exact hlength 2 3 rfl rfl rfl 1 4 rfl (by decide) (by decide)

/-- Four rows of a quarter of all words each, in no bytes at all: the tensor is not refused for its
size, unpacking breaks off at the product. -/
theorem unpack_overflows_of_four_quarters :
    unpack ⟨[4, 0x4000000000000000], [], [1, 0, 0, 0]⟩ = .error .overflow ∧
      ¬ ∃ rows w, WellFormed ⟨[4, 0x4000000000000000], [], [1, 0, 0, 0]⟩ rows w := by
  refine ⟨rfl, ?_⟩
  rintro ⟨rows, w, h⟩
  have hshape := h.shape
  have hsize := h.size
  simp only [List.cons.injEq, List.length_nil, and_true] at hshape hsize
  obtain ⟨rfl, rfl⟩ : rows = 4 ∧ w = 0x4000000000000000 := by omega
  omega

end CorpusAnnotator.Tensor
