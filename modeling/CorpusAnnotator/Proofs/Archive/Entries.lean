import CorpusAnnotator.Archive.Reader
import CorpusAnnotator.Proofs.Archive.Records
import CorpusAnnotator.Proofs.Text.Utf8

/-! Each entry that is written is read back from its directory entry: its name, however that is
marked, its bytes, and its place, however large that is. -/
namespace CorpusAnnotator.Archive

variable {bytes content rest more : List UInt8} {name : String} {offset size : Nat} {d : Directory}

/-! ## Names -/

theorem utf8EncodeChar_of_ascii {c : Char} (h : c.toNat < 128) :
    String.utf8EncodeChar c = [UInt8.ofNat c.toNat] := by
  have hvalue : c.val.toNat ≤ 0x7F := Nat.le_of_lt_succ h
  simp only [String.utf8EncodeChar, if_pos hvalue]
  rfl

/-- ASCII is the same in both character sets of names. -/
theorem CodePage437.decode_encode {cs : List Char} (h : ∀ c ∈ cs, c.toNat < 128) :
    CodePage437.decode (Text.Utf8.encode cs) = cs := by
  induction cs with
  | nil => rfl
  | cons c cs ih =>
    have hc : c.toNat < 128 := h c List.mem_cons_self
    have hbyte : (UInt8.ofNat c.toNat).toNat = c.toNat := by
      rw [UInt8.toNat_ofNat', Nat.mod_eq_of_lt (by omega)]
    have hdecoded : CodePage437.decodeByte (UInt8.ofNat c.toNat) = c := by
      rw [CodePage437.decodeByte, hbyte, if_pos hc, Char.ofNat_toNat]
    have hrest := ih fun e he => h e (List.mem_cons_of_mem c he)
    rw [Text.Utf8.encode, List.flatMap_cons, utf8EncodeChar_of_ascii hc, CodePage437.decode,
      List.map_append, List.map_singleton, hdecoded]
    exact congrArg (c :: ·) hrest

/-- A name is read in the character set that its flags tell. -/
theorem decode_name (name : String) :
    (if (nameFlags name).testBit 11 then Text.Utf8.decodeLenient (Text.Utf8.encode name.toList)
      else CodePage437.decode (Text.Utf8.encode name.toList)) = name.toList := by
  unfold nameFlags
  split
  · next h =>
    have hascii : ∀ c ∈ name.toList, c.toNat < 128 := by simpa using h
    exact CodePage437.decode_encode hascii
  · exact Text.Utf8.decodeLenient_encode name.toList

/-- No entry is marked as encrypted. -/
theorem testBit_nameFlags_zero (name : String) : (nameFlags name).testBit 0 = false := by
  unfold nameFlags
  split <;> rfl

/-! ## Large numbers -/

theorem Particulars.withExtra_nil (fuel : Nat) (p : Particulars) :
    p.withExtra fuel [] = some p := by
  cases fuel with
  | zero => rfl
  | succ fuel => exact if_pos Nat.two_pos

/-- An extra field of large numbers is the only one. -/
theorem Particulars.withExtra_large (fuel : Nat) (p : Particulars) {field : List UInt8}
    (h : field.length < Nat.pow 256 2) :
    p.withExtra (fuel + 1) (littleEndian 2 1 ++ (littleEndian 2 field.length ++ field)) =
      p.withLarge field.length field := by
  have hlength : ¬ (littleEndian 2 1 ++ (littleEndian 2 field.length ++ field)).length < 2 := by
    rw [List.length_append, length_littleEndian]
    omega
  have hfield := bytes?_append field []
  rw [List.append_nil] at hfield
  rw [withExtra, if_neg hlength, number?_littleEndian (by decide)]
  simp only [Option.bind_eq_bind, Option.bind_some, number?_littleEndian h, hfield, if_true]
  cases p.withLarge field.length field with
  | none => rfl
  | some p => exact withExtra_nil fuel p

theorem length_largeField (numbers : List Nat) :
    (numbers.flatMap (littleEndian 8)).length = 8 * numbers.length := by
  induction numbers with
  | nil => rfl
  | cons n numbers ih =>
    rw [List.flatMap_cons, List.length_append, length_littleEndian, ih, List.length_cons]
    omega

theorem largeExtra_eq (size offset : Nat) :
    largeExtra size offset = [] ∧ size < longOffset ∧ offset < longOffset ∨
      largeExtra size offset = littleEndian 2 1 ++
        (littleEndian 2 ((largeNumbers size offset).flatMap (littleEndian 8)).length ++
          (largeNumbers size offset).flatMap (littleEndian 8)) ∧
        (longOffset ≤ size ∨ longOffset ≤ offset) := by
  unfold largeExtra
  rw [length_largeField]
  unfold largeNumbers
  by_cases hsize : longOffset ≤ size <;> by_cases hoffset : longOffset ≤ offset
  · right
    simp [hsize, hoffset]
  · right
    simp [hsize, hoffset]
  · right
    simp [hsize, hoffset]
  · left
    simp [hsize, hoffset]
    omega

theorem length_largeNumbers_le (size offset : Nat) : (largeNumbers size offset).length ≤ 3 := by
  unfold largeNumbers
  split <;> split <;> simp

theorem length_largeExtra_le (size offset : Nat) : (largeExtra size offset).length ≤ 28 := by
  have hnumbers := length_largeNumbers_le size offset
  rcases largeExtra_eq size offset with ⟨h, -⟩ | ⟨h, -⟩
  · rw [h]
    exact Nat.zero_le _
  · rw [h, List.length_append, List.length_append, length_littleEndian, length_littleEndian,
      length_largeField]
    omega

/-- The number that stands for a larger one has it looked for. -/
theorem large?_longOffset {v : Nat} (h : v < Nat.pow 256 8) (all : Bool) (rest : List UInt8) :
    large? all longOffset (littleEndian 8 v ++ rest) = some (v, rest) := by
  rw [large?, if_pos (by simp [longOffset]), number?_littleEndian h]

theorem large?_of_lt {v : Nat} (h : v < longOffset) (bytes : List UInt8) :
    large? false (min v longOffset) bytes = some (v, bytes) := by
  have hne : v ≠ 0xFFFFFFFF := Nat.ne_of_lt h
  rw [Nat.min_eq_left (Nat.le_of_lt h), large?, if_neg (by simpa using hne)]

/-- The large numbers are read in the places of those that stand for them. -/
theorem Particulars.withLarge_largeNumbers (hsize : size < Nat.pow 256 8)
    (hoffset : offset < Nat.pow 256 8) (nameBytes : List UInt8) (isUtf8 : Bool)
    (rest : List UInt8) :
    withLarge ⟨min size longOffset, min size longOffset, min offset longOffset, nameBytes, isUtf8⟩
        (8 * (largeNumbers size offset).length)
        ((largeNumbers size offset).flatMap (littleEndian 8) ++ rest) =
      some ⟨size, size, offset, nameBytes, isUtf8⟩ := by
  unfold largeNumbers withLarge
  -- what is looked for is what has been written, in each of the four cases
  by_cases hs : longOffset ≤ size <;> by_cases ho : longOffset ≤ offset
  · simp [hs, ho, List.append_assoc, large?_longOffset hsize, large?_longOffset hoffset]
  · simp [hs, ho, List.append_assoc, large?_longOffset hsize, large?_of_lt (Nat.lt_of_not_le ho)]
  · simp [hs, ho, large?_longOffset hoffset, large?_of_lt (Nat.lt_of_not_le hs)]
  · simp [hs, ho, large?_of_lt (Nat.lt_of_not_le hs), large?_of_lt (Nat.lt_of_not_le ho)]

/-- The extra field of a directory entry makes up for what its header leaves out. -/
theorem Particulars.withExtra_largeExtra (hsize : size < Nat.pow 256 8)
    (hoffset : offset < Nat.pow 256 8) (nameBytes : List UInt8) (isUtf8 : Bool) :
    withExtra (largeExtra size offset).length
        ⟨min size longOffset, min size longOffset, min offset longOffset, nameBytes, isUtf8⟩
        (largeExtra size offset) =
      some ⟨size, size, offset, nameBytes, isUtf8⟩ := by
  rcases largeExtra_eq size offset with ⟨h, hs, ho⟩ | ⟨h, -⟩
  · rw [h, withExtra_nil, Nat.min_eq_left (Nat.le_of_lt hs), Nat.min_eq_left (Nat.le_of_lt ho)]
  · have hlength := length_largeField (largeNumbers size offset)
    have hcount := length_largeNumbers_le size offset
    have hfield : ((largeNumbers size offset).flatMap (littleEndian 8)).length < Nat.pow 256 2 := by
      rw [hlength]
      exact Nat.lt_of_le_of_lt (Nat.mul_le_mul_left 8 hcount) (by decide)
    have hlarge := withLarge_largeNumbers hsize hoffset nameBytes isUtf8 []
    rw [List.append_nil, ← hlength] at hlarge
    rw [h, List.length_append, length_littleEndian, Nat.add_comm 2, withExtra_large _ _ hfield,
      hlarge]

/-! ## Entries -/

/-- A written entry as it is read back. -/
def stored (name : String) (bytes : List UInt8) : Entry where
  name := name
  encrypted := false
  method := 0
  checksum := (Checksum.crc32 bytes).toNat
  data := bytes
  mode := some fileMode

/-- The bytes of a written entry are accepted: their checksum is that of the entry. -/
theorem content_stored (name : String) (bytes : List UInt8) :
    (stored name bytes).content = .ok bytes :=
  if_pos rfl

theorem open_stored (name : String) (bytes : List UInt8) : (stored name bytes).open = .ok () := rfl

/-- The short numbers hold what is said of an entry under four gigabytes. -/
theorem fits_describe (h : content.length ≤ longOffset) : (describe name content).Fits where
  version := (by decide : 10 < Nat.pow 256 2)
  flags := by
    show nameFlags name < _
    unfold nameFlags
    split <;> decide
  method := (by decide : 0 < Nat.pow 256 2)
  time := (by decide : 0 < Nat.pow 256 2)
  date := (by decide : firstDay < Nat.pow 256 2)
  checksum := (Checksum.crc32 content).toNat_lt
  compressedSize := Nat.lt_of_le_of_lt h (by decide)
  size := Nat.lt_of_le_of_lt h (by decide)

theorem fits_centralHeader (hname : (Text.Utf8.encode name.toList).length < Nat.pow 256 2)
    (hsize : content.length ≤ longOffset) (offset : Nat) :
    (centralHeader name content offset).Fits where
  maker := (by decide : 3 * 256 + 20 < Nat.pow 256 2)
  description := fits_describe hsize
  name := hname
  extra := Nat.lt_of_le_of_lt (length_largeExtra_le _ _) (by decide)
  comment := (by decide : 0 < Nat.pow 256 2)
  disk := (by decide : 0 < Nat.pow 256 2)
  internalAttributes := (by decide : 0 < Nat.pow 256 2)
  attributes := (by decide : fileMode * 0x10000 < Nat.pow 256 4)
  offset := Nat.lt_of_le_of_lt (Nat.min_le_right _ _) (by decide)

/-- An entry that lies in front of the directory is found through its central header. -/
theorem entry?_centralHeader (hname : (Text.Utf8.encode name.toList).length < Nat.pow 256 2)
    (hsize : content.length ≤ longOffset) (hoffset : offset < Nat.pow 256 8)
    (hshift : d.shift = 0) (hpart : bytes.drop offset = localPart name content ++ more)
    (hend : offset + (localPart name content).length ≤ d.start) :
    entry? bytes d (centralHeader name content offset) = some (stored name content) := by
  have hcontent : content.length < Nat.pow 256 8 := Nat.lt_of_le_of_lt hsize (by decide)
  have hextra := Particulars.withExtra_largeExtra hcontent hoffset
    (Text.Utf8.encode name.toList) ((nameFlags name).testBit 11)
  rw [Nat.min_eq_left hsize] at hextra
  rw [localPart, List.append_assoc] at hpart
  rw [localPart, List.length_append] at hend
  have hheader : 0 < (localHeader name content).encode.length := by
    rw [LocalHeader.length_encode]
    simp only [LocalHeader.fixedSize]
    omega
  have hlocal : LocalHeader.size? (bytes.drop offset) =
      some (localHeader name content).encode.length := by
    rw [hpart]
    exact LocalHeader.size?_encode (h := localHeader name content) (fits_describe hsize) hname
      (by decide : 0 < Nat.pow 256 2) _
  have hdata : (bytes.drop (offset + (localHeader name content).encode.length)).take
      content.length = content := by
    rw [← List.drop_drop, hpart, List.drop_left, List.take_left]
  have hdecoded := decode_name name
  simp only [centralHeader, entry?, describe, hextra, hshift, Nat.add_zero, hlocal,
    Option.bind_eq_bind, Option.bind_some, if_neg (Nat.not_le_of_lt (by omega : offset < d.start)),
    if_neg (Nat.not_lt_of_le (by omega :
      offset + (localHeader name content).encode.length ≤ d.start)), hdata,
    testBit_nameFlags_zero, hdecoded, String.ofList_toList]
  rfl

end CorpusAnnotator.Archive
