import CorpusAnnotator.Archive.Writer

/-! Each record of an archive has the length that its format says, and is read back from its bytes,
whatever follows them, as long as its numbers fit into their places. -/
namespace CorpusAnnotator.Archive

variable {rest bytes : List UInt8} {n : Nat}

/-! ## Parts of records -/

theorem number?_eq_some {p : Nat × List UInt8} (h : number? n bytes = some p) :
    bytes.length = n + p.2.length := by
  induction n generalizing bytes p with
  | zero =>
    cases h
    exact (Nat.zero_add _).symm
  | succ n ih =>
    cases bytes with
    | nil => cases h
    | cons b bytes =>
      obtain ⟨q, hq, rfl⟩ := Option.map_eq_some_iff.mp h
      rw [List.length_cons, ih hq]
      exact Nat.add_right_comm n q.2.length 1

theorem bytes?_append (bytes rest : List UInt8) :
    bytes? bytes.length (bytes ++ rest) = some (bytes, rest) := by
  rw [bytes?, if_neg (by rw [List.length_append]; omega), List.take_left, List.drop_left]

/-- A number is read, and reading goes on behind it. -/
theorem number?_bind {α : Type} {n v : Nat} (h : v < Nat.pow 256 n) (rest : List UInt8)
    (f : Nat × List UInt8 → Option α) :
    (number? n (littleEndian n v ++ rest) >>= f) = f (v, rest) := by
  rw [number?_littleEndian h]
  rfl

theorem bytes?_bind {α : Type} (bytes rest : List UInt8)
    (f : List UInt8 × List UInt8 → Option α) :
    (bytes? bytes.length (bytes ++ rest) >>= f) = f (bytes, rest) := by
  rw [bytes?_append]
  rfl

theorem after?_bind {α : Type} {signature : Nat} (h : signature < Nat.pow 256 4)
    (rest : List UInt8) (f : List UInt8 → Option α) :
    (after? signature (littleEndian 4 signature ++ rest) >>= f) = f rest := by
  simp [after?, number?_littleEndian h]

/-! ## Local headers -/

/-- The numbers of a description fit into their places. -/
structure Description.Fits (d : Description) : Prop where
  version : d.version < Nat.pow 256 2
  flags : d.flags < Nat.pow 256 2
  method : d.method < Nat.pow 256 2
  time : d.time < Nat.pow 256 2
  date : d.date < Nat.pow 256 2
  checksum : d.checksum < Nat.pow 256 4
  compressedSize : d.compressedSize < Nat.pow 256 4
  size : d.size < Nat.pow 256 4

theorem Description.length_encode (d : Description) : d.encode.length = 22 := by
  simp [encode, length_littleEndian]

theorem Description.decode?_encode {d : Description} (h : d.Fits) (rest : List UInt8) :
    decode? (d.encode ++ rest) = some (d, rest) := by
  simp only [encode, List.append_assoc]
  rw [decode?]
  simp only [↓number?_bind h.version, ↓number?_bind h.flags, ↓number?_bind h.method,
    ↓number?_bind h.time, ↓number?_bind h.date, ↓number?_bind h.checksum,
    ↓number?_bind h.compressedSize, ↓number?_bind h.size]
  rfl

theorem Description.decode?_bind {α : Type} {d : Description} (h : d.Fits) (rest : List UInt8)
    (f : Description × List UInt8 → Option α) :
    (decode? (d.encode ++ rest) >>= f) = f (d, rest) := by
  rw [decode?_encode h]
  rfl

theorem LocalHeader.length_encode (h : LocalHeader) :
    h.encode.length = fixedSize + h.name.length + h.extra.length := by
  simp only [encode, List.length_append, length_littleEndian, Description.length_encode, fixedSize]

theorem length_localPart (name : String) (bytes : List UInt8) :
    (localPart name bytes).length =
      LocalHeader.fixedSize + (Text.Utf8.encode name.toList).length + bytes.length := by
  rw [localPart, List.length_append, LocalHeader.length_encode]
  rfl

/-- The header in front of some bytes tells its own length. -/
theorem LocalHeader.size?_encode {h : LocalHeader} (hd : h.description.Fits)
    (hname : h.name.length < Nat.pow 256 2) (hextra : h.extra.length < Nat.pow 256 2)
    (rest : List UInt8) : size? (h.encode ++ rest) = some h.encode.length := by
  rw [length_encode]
  simp only [encode, List.append_assoc]
  rw [size?]
  simp only [↓after?_bind (by decide : localSignature < Nat.pow 256 4),
    ↓Description.decode?_bind hd, ↓number?_bind hname, ↓number?_bind hextra]
  rfl

/-! ## Central headers -/

structure CentralHeader.Fits (h : CentralHeader) : Prop where
  maker : h.maker < Nat.pow 256 2
  description : h.description.Fits
  name : h.name.length < Nat.pow 256 2
  extra : h.extra.length < Nat.pow 256 2
  comment : h.comment.length < Nat.pow 256 2
  disk : h.disk < Nat.pow 256 2
  internalAttributes : h.internalAttributes < Nat.pow 256 2
  attributes : h.attributes < Nat.pow 256 4
  offset : h.offset < Nat.pow 256 4

theorem CentralHeader.length_encode (h : CentralHeader) :
    h.encode.length = fixedSize + h.name.length + h.extra.length + h.comment.length := by
  simp only [encode, List.length_append, length_littleEndian, Description.length_encode, fixedSize]

theorem CentralHeader.decode?_encode {h : CentralHeader} (hfits : h.Fits) (rest : List UInt8) :
    decode? (h.encode ++ rest) = some (h, rest) := by
  simp only [encode, List.append_assoc]
  rw [decode?]
  simp only [↓after?_bind (by decide : centralSignature < Nat.pow 256 4),
    ↓number?_bind hfits.maker, ↓Description.decode?_bind hfits.description,
    ↓number?_bind hfits.name, ↓number?_bind hfits.extra, ↓number?_bind hfits.comment,
    ↓number?_bind hfits.disk, ↓number?_bind hfits.internalAttributes,
    ↓number?_bind hfits.attributes, ↓number?_bind hfits.offset, ↓bytes?_bind]
  rfl

/-! ## End records -/

structure EndRecord.Fits (r : EndRecord) : Prop where
  disk : r.disk < Nat.pow 256 2
  directoryDisk : r.directoryDisk < Nat.pow 256 2
  entriesHere : r.entriesHere < Nat.pow 256 2
  entries : r.entries < Nat.pow 256 2
  directorySize : r.directorySize < Nat.pow 256 4
  directoryOffset : r.directoryOffset < Nat.pow 256 4
  commentLength : r.commentLength < Nat.pow 256 2

theorem EndRecord.length_encode (r : EndRecord) : r.encode.length = size := by
  simp [encode, length_littleEndian, size]

theorem EndRecord.decode?_encode {r : EndRecord} (h : r.Fits)
    (hcomment : r.commentLength ≤ rest.length) : decode? (r.encode ++ rest) = some r := by
  simp only [encode, List.append_assoc]
  rw [decode?]
  simp only [↓after?_bind (by decide : endSignature < Nat.pow 256 4), ↓number?_bind h.disk,
    ↓number?_bind h.directoryDisk, ↓number?_bind h.entriesHere, ↓number?_bind h.entries,
    ↓number?_bind h.directorySize, ↓number?_bind h.directoryOffset,
    ↓number?_bind h.commentLength, if_neg (Nat.not_lt_of_le hcomment)]
  rfl

/-- No end record stands where there is no room for one. -/
theorem EndRecord.decode?_of_length_lt (h : bytes.length < size) : decode? bytes = none := by
  cases hdecode : decode? bytes with
  | none => rfl
  | some r =>
    simp only [decode?, after?, Option.bind_eq_bind, Option.bind_eq_some_iff, Prod.exists] at hdecode
    obtain ⟨bytes₁, ⟨_, bytes₀, h₀, hsignature⟩, _, bytes₂, h₂, _, bytes₃, h₃, _, bytes₄, h₄,
      _, bytes₅, h₅, _, bytes₆, h₆, _, bytes₇, h₇, _, bytes₈, h₈, -⟩ := hdecode
    obtain rfl : bytes₀ = bytes₁ := by
      split at hsignature
      · exact Option.some.inj hsignature
      · cases hsignature
    have := number?_eq_some h₀
    have := number?_eq_some h₂
    have := number?_eq_some h₃
    have := number?_eq_some h₄
    have := number?_eq_some h₅
    have := number?_eq_some h₆
    have := number?_eq_some h₇
    have := number?_eq_some h₈
    simp only [size] at *
    omega

/-! ## Long end records -/

structure LongEndRecord.Fits (r : LongEndRecord) : Prop where
  recordSize : r.recordSize < Nat.pow 256 8
  maker : r.maker < Nat.pow 256 2
  version : r.version < Nat.pow 256 2
  disk : r.disk < Nat.pow 256 4
  directoryDisk : r.directoryDisk < Nat.pow 256 4
  entriesHere : r.entriesHere < Nat.pow 256 8
  entries : r.entries < Nat.pow 256 8
  directorySize : r.directorySize < Nat.pow 256 8
  directoryOffset : r.directoryOffset < Nat.pow 256 8

theorem LongEndRecord.length_encode (r : LongEndRecord) : r.encode.length = fixedSize := by
  simp [encode, length_littleEndian, fixedSize]

theorem LongEndRecord.decode?_encode {r : LongEndRecord} (h : r.Fits) (rest : List UInt8) :
    decode? (r.encode ++ rest) = some r := by
  simp only [encode, List.append_assoc]
  rw [decode?]
  simp only [↓after?_bind (by decide : longEndSignature < Nat.pow 256 4),
    ↓number?_bind h.recordSize, ↓number?_bind h.maker, ↓number?_bind h.version,
    ↓number?_bind h.disk, ↓number?_bind h.directoryDisk, ↓number?_bind h.entriesHere,
    ↓number?_bind h.entries, ↓number?_bind h.directorySize, ↓number?_bind h.directoryOffset]
  rfl

structure Locator.Fits (r : Locator) : Prop where
  directoryDisk : r.directoryDisk < Nat.pow 256 4
  offset : r.offset < Nat.pow 256 8
  disks : r.disks < Nat.pow 256 4

theorem Locator.length_encode (r : Locator) : r.encode.length = size := by
  simp [encode, length_littleEndian, size]

theorem Locator.decode?_encode {r : Locator} (h : r.Fits) (rest : List UInt8) :
    decode? (r.encode ++ rest) = some r := by
  simp only [encode, List.append_assoc]
  rw [decode?]
  simp only [↓after?_bind (by decide : locatorSignature < Nat.pow 256 4),
    ↓number?_bind h.directoryDisk, ↓number?_bind h.offset, ↓number?_bind h.disks]
  rfl

end CorpusAnnotator.Archive
