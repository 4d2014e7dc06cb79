import CorpusAnnotator.Proofs.Archive.Entries

/-! What has been written as an archive is read back. The reader comes upon the end record that the
writer wrote, whatever the entries hold, and from it to the directory and to every entry. -/
namespace CorpusAnnotator.Archive

variable {bytes front data central pattern rest after : List UInt8} {d : Directory}
  {entries : List (String × List UInt8)} {es : List Entry} {i index low high count offset size : Nat}

/-! ## Finding records -/

theorem le_of_mem_occurrencesFrom (h : i ∈ occurrencesFrom pattern index bytes) : index ≤ i := by
  induction bytes generalizing index with
  | nil => exact absurd h List.not_mem_nil
  | cons b bytes ih =>
    rw [occurrencesFrom] at h
    split at h
    · rcases List.mem_cons.mp h with rfl | h
      · exact Nat.le_refl i
      · exact Nat.le_of_succ_le (ih h)
    · exact Nat.le_of_succ_le (ih h)

theorem occurrencesFrom_append (hne : pattern ≠ []) (index : Nat) (rest : List UInt8) :
    ∃ later, occurrencesFrom pattern index (pattern ++ rest) = index :: later ∧
      ∀ i ∈ later, index < i := by
  obtain ⟨b, pattern', rfl⟩ := List.exists_cons_of_ne_nil hne
  have hfront : (b :: pattern').isPrefixOf (b :: (pattern' ++ rest)) = true :=
    List.isPrefixOf_iff_prefix.mpr (List.prefix_append (b :: pattern') rest)
  rw [List.cons_append, occurrencesFrom]
  simp only [hfront, if_true]
  exact ⟨_, rfl, fun i hi => le_of_mem_occurrencesFrom hi⟩

/-- The occurrences behind a place come after those in front of it. -/
theorem exists_occurrencesFrom_eq (pattern : List UInt8) (index k : Nat) (bytes : List UInt8) :
    ∃ earlier, occurrencesFrom pattern index bytes =
      earlier ++ occurrencesFrom pattern (index + k) (bytes.drop k) := by
  induction k generalizing index bytes with
  | zero => exact ⟨[], rfl⟩
  | succ k ih =>
    cases bytes with
    | nil => exact ⟨[], rfl⟩
    | cons b bytes =>
      obtain ⟨earlier, hearlier⟩ := ih (index + 1) bytes
      rw [List.drop_succ_cons, occurrencesFrom, hearlier, Nat.add_right_comm, Nat.add_assoc]
      split
      · exact ⟨index :: earlier, rfl⟩
      · exact ⟨earlier, rfl⟩

/-- A record that begins right where the search does is found first. -/
theorem exists_placesBetween_eq {signature : Nat}
    (h : bytes.drop low = littleEndian 4 signature ++ rest) (hhigh : low + 4 ≤ high) :
    ∃ later, placesBetween signature low high bytes = low :: later := by
  have hne : littleEndian 4 signature ≠ [] := List.ne_nil_of_length_eq_add_one
    (length_littleEndian 4 signature)
  obtain ⟨later, hlater, -⟩ := occurrencesFrom_append hne low rest
  rw [placesBetween, h, hlater, List.filter_cons_of_pos (by simpa using hhigh)]
  exact ⟨_, rfl⟩

/-- Behind its own start an end record leaves no room for another one, so what it leads to is what
the archive holds. -/
theorem listed?_eq_some {r : EndRecord}
    (h : listedAt? (front ++ r.encode) front.length = some es) :
    listed? (front ++ r.encode) = some es := by
  have hne : littleEndian 4 endSignature ≠ [] := List.ne_nil_of_length_eq_add_one
    (length_littleEndian 4 endSignature)
  obtain ⟨earlier, hearlier⟩ := exists_occurrencesFrom_eq (littleEndian 4 endSignature) 0
    front.length (front ++ r.encode)
  obtain ⟨later, hlater, hbehind⟩ := occurrencesFrom_append hne front.length
    (r.encode.drop 4)
  have hsplit : r.encode = littleEndian 4 endSignature ++ r.encode.drop 4 := by
    simp only [EndRecord.encode, List.append_assoc]
    rfl
  have hnone : later.reverse.findSome? (listedAt? (front ++ r.encode)) = none := by
    rw [List.findSome?_eq_none_iff]
    intro place hplace
    have hlt := hbehind place (List.mem_reverse.mp hplace)
    have hshort : ((front ++ r.encode).drop place).length < EndRecord.size := by
      rw [List.length_drop, List.length_append, EndRecord.length_encode]
      have : EndRecord.size = 22 := rfl
      omega
    rw [listedAt?, directoryAt?, EndRecord.decode?_of_length_lt hshort]
    rfl
  rw [listed?, occurrences, hearlier, Nat.zero_add, List.drop_left, hsplit, hlater, ← hsplit,
    List.reverse_append, List.reverse_cons, List.append_assoc, List.findSome?_append, hnone,
    Option.none_or, List.singleton_append, List.findSome?_cons, h]

/-! ## The directory -/

theorem localParts_cons (name : String) (content : List UInt8)
    (entries : List (String × List UInt8)) :
    localParts ((name, content) :: entries) = localPart name content ++ localParts entries := rfl

theorem length_directory_ge (offset : Nat) (entries : List (String × List UInt8)) :
    entries.length * CentralHeader.fixedSize ≤ (directory offset entries).length := by
  induction entries generalizing offset with
  | nil => exact Nat.le_of_eq (Nat.zero_mul _)
  | cons e entries ih =>
    have hrest := ih (offset + (localPart e.1 e.2).length)
    rw [directory, List.length_append, List.length_cons, Nat.succ_mul,
      CentralHeader.length_encode]
    omega

theorem exists_directory_eq (offset : Nat) (hne : entries ≠ []) :
    ∃ rest, directory offset entries = littleEndian 4 centralSignature ++ rest := by
  obtain ⟨⟨name, content⟩, entries', rfl⟩ := List.exists_cons_of_ne_nil hne
  rw [directory, CentralHeader.encode]
  simp only [List.append_assoc]
  exact ⟨_, rfl⟩

theorem fits_endRecord (count offset size : Nat) : (endRecord count offset size).Fits where
  disk := (by decide : 0 < Nat.pow 256 2)
  directoryDisk := (by decide : 0 < Nat.pow 256 2)
  entriesHere := Nat.lt_of_le_of_lt (Nat.min_le_right _ _) (by decide)
  entries := Nat.lt_of_le_of_lt (Nat.min_le_right _ _) (by decide)
  directorySize := Nat.lt_of_le_of_lt (Nat.min_le_right _ _) (by decide)
  directoryOffset := Nat.lt_of_le_of_lt (Nat.min_le_right _ _) (by decide)
  commentLength := (by decide : 0 < Nat.pow 256 2)

theorem decode?_endRecord (count offset size : Nat) :
    EndRecord.decode? (endRecord count offset size).encode = some (endRecord count offset size) := by
  rw [← List.append_nil (endRecord count offset size).encode]
  exact EndRecord.decode?_encode (fits_endRecord count offset size) (Nat.zero_le 0)

/-- An archive that is small enough has its directory where the end record says. -/
theorem directoryAt?_of_short {place : Nat}
    (hplace : bytes.drop place = (endRecord count offset size).encode)
    (hdirectory : bytes.drop offset = littleEndian 4 centralSignature ++ rest)
    (hlast : offset + 4 ≤ place) (hcount : 0 < count) (hshort : count < longCount)
    (hoffset : offset < longOffset) :
    directoryAt? bytes place = some ⟨0, offset, count, 0, 0⟩ := by
  obtain ⟨later, hlater⟩ := exists_placesBetween_eq hdirectory hlast
  have hcount' : min count longCount = count := Nat.min_eq_left (Nat.le_of_lt hshort)
  have hoffset' : min offset longOffset = offset := Nat.min_eq_left (Nat.le_of_lt hoffset)
  have hnolocator : ¬ (count = 0xFFFF ∨ offset = 0xFFFFFFFF) := by
    rintro (h | h)
    · exact Nat.ne_of_lt hshort h
    · exact Nat.ne_of_lt hoffset h
  rw [directoryAt?, hplace, decode?_endRecord]
  simp only [endRecord, hcount', hoffset', hnolocator, if_false, Option.bind_eq_bind,
    Option.bind_some, Nat.ne_of_gt hcount, if_neg (Nat.not_le_of_lt (by omega : offset < place)),
    hlater, List.head?_cons, Nat.sub_self, Nat.add_zero]
  rfl

/-- The long end record leads to the directory in front of it. -/
theorem longDirectory?_eq_some {place : Nat} (hplace : place = offset + size)
    (hdrop : bytes.drop place = LongEndRecord.encode ⟨LongEndRecord.fixedSize - 12, 3 * 256 + 45,
      45, 0, 0, count, count, size, offset⟩ ++ rest)
    (hsize : count * CentralHeader.fixedSize ≤ size) (htotal : place < Nat.pow 256 8) :
    longDirectory? bytes (place + LongEndRecord.fixedSize) ⟨0, place, 1⟩ =
      some ⟨0, offset, count, 0, 0⟩ := by
  have hcount : count ≤ size := Nat.le_trans (Nat.le_mul_of_pos_right count (by decide)) hsize
  have hlong : 4 ≤ LongEndRecord.fixedSize := by decide
  have hfits : LongEndRecord.Fits ⟨LongEndRecord.fixedSize - 12, 3 * 256 + 45, 45, 0, 0, count,
      count, size, offset⟩ :=
    { recordSize := (by decide : LongEndRecord.fixedSize - 12 < Nat.pow 256 8)
      maker := (by decide : 3 * 256 + 45 < Nat.pow 256 2)
      version := (by decide : 45 < Nat.pow 256 2)
      disk := (by decide : 0 < Nat.pow 256 4)
      directoryDisk := (by decide : 0 < Nat.pow 256 4)
      entriesHere := (by omega : count < Nat.pow 256 8)
      entries := (by omega : count < Nat.pow 256 8)
      directorySize := (by omega : size < Nat.pow 256 8)
      directoryOffset := (by omega : offset < Nat.pow 256 8) }
  have hdecode := LongEndRecord.decode?_encode hfits rest
  have hsignature : bytes.drop place = littleEndian 4 longEndSignature ++
      (bytes.drop place).drop 4 := by
    rw [hdrop, LongEndRecord.encode]
    simp only [List.append_assoc]
    rfl
  obtain ⟨later, hlater⟩ := exists_placesBetween_eq hsignature
    (by omega : place + 4 ≤ place + LongEndRecord.fixedSize)
  have hbefore : ¬ (place + LongEndRecord.fixedSize ≤ place ∨ 1 < 1) := by omega
  rw [longDirectory?, if_neg hbefore, hlater, List.findSome?_cons, hdrop, hdecode]
  simp only [Option.bind_eq_bind, Option.bind_some, ne_eq, not_true_eq_false, if_false,
    Nat.lt_irrefl, Nat.sub_self, Nat.add_zero, Nat.add_sub_cancel_left,
    if_neg (by omega : ¬ place < count * CentralHeader.fixedSize + offset)]
  rfl

/-- One that is not has a locator in front of its end record. -/
theorem directoryAt?_of_long {place : Nat}
    (hplace : bytes.drop (place + Locator.size) = (endRecord count offset size).encode)
    (hlocator : bytes.drop place = Locator.encode ⟨0, offset + size, 1⟩ ++ rest)
    (hlong : longCount ≤ count ∨ longOffset ≤ offset) (htotal : offset + size < Nat.pow 256 8) :
    directoryAt? bytes (place + Locator.size) =
      longDirectory? bytes place ⟨0, offset + size, 1⟩ := by
  have hfits : Locator.Fits ⟨0, offset + size, 1⟩ :=
    ⟨(by decide : 0 < Nat.pow 256 4), htotal, (by decide : 1 < Nat.pow 256 4)⟩
  have hneeded : min count longCount = 0xFFFF ∨ min offset longOffset = 0xFFFFFFFF :=
    hlong.imp Nat.min_eq_right Nat.min_eq_right
  rw [directoryAt?, hplace, decode?_endRecord]
  simp only [endRecord, Option.bind_eq_bind, Option.bind_some, if_pos hneeded,
    if_neg (Nat.not_lt_of_le (Nat.le_add_left Locator.size place)), Nat.add_sub_cancel, hlocator,
    Locator.decode?_encode hfits]

/-- The end record leads to the directory: by itself, or where its numbers are too large for it by
way of the locator and the long end record. -/
theorem directoryAt?_ending
    (hbytes : bytes = data ++ (central ++ ending count data.length central.length))
    (hcentral : central = littleEndian 4 centralSignature ++ rest)
    (hcount : 0 < count) (hsize : count * CentralHeader.fixedSize ≤ central.length)
    (htotal : bytes.length < Nat.pow 256 8) :
    directoryAt? bytes (data.length + central.length +
      (longEnding count data.length central.length).length) =
        some ⟨0, data.length, count, 0, 0⟩ := by
  have hroom : 4 ≤ central.length :=
    Nat.le_trans (by decide : 4 ≤ 1 * CentralHeader.fixedSize)
      (Nat.le_trans (Nat.mul_le_mul_right _ hcount) hsize)
  have hpart : data.length + central.length ≤ bytes.length := by
    rw [hbytes, List.length_append, List.length_append]
    omega
  have hdirectory : bytes.drop data.length = littleEndian 4 centralSignature ++
      (rest ++ ending count data.length central.length) := by
    rw [hbytes, List.drop_left, ← List.append_assoc, ← hcentral]
  have hending : bytes.drop (data.length + central.length) =
      ending count data.length central.length := by
    rw [← List.drop_drop, hbytes, List.drop_left, List.drop_left]
  have hplace : bytes.drop (data.length + central.length +
      (longEnding count data.length central.length).length) =
        (endRecord count data.length central.length).encode := by
    rw [← List.drop_drop, hending, ending, List.drop_left]
  by_cases hlong : longCount ≤ count ∨ longOffset ≤ data.length
  · have hneeded : longCount ≤ count ∨ longOffset ≤ data.length ∨ longOffset ≤ central.length := by
      omega
    rw [ending, longEnding, if_pos hneeded, List.append_assoc] at hending
    rw [longEnding, if_pos hneeded, List.length_append, LongEndRecord.length_encode,
      Locator.length_encode, ← Nat.add_assoc] at hplace ⊢
    have hlocator : bytes.drop (data.length + central.length + LongEndRecord.fixedSize) =
        Locator.encode ⟨0, data.length + central.length, 1⟩ ++
          (endRecord count data.length central.length).encode := by
      rw [← List.drop_drop, hending, List.drop_left' (LongEndRecord.length_encode _)]
    rw [directoryAt?_of_long hplace hlocator (by omega) (by omega)]
    exact longDirectory?_eq_some rfl hending hsize (by omega)
  · exact directoryAt?_of_short hplace hdirectory (by omega) hcount (by omega) (by omega)

/-! ## Entries -/

/-- What an archive can hold: names and bytes with lengths that its headers can tell, and no more in
all than its longest numbers reach. -/
structure Writable (entries : List (String × List UInt8)) : Prop where
  names : ∀ e ∈ entries, (Text.Utf8.encode e.1.toList).length < Nat.pow 256 2
  sizes : ∀ e ∈ entries, e.2.length ≤ longOffset
  total : (encode entries).length < Nat.pow 256 8

/-- The directory of entries that lie one after another up to the directory leads to each of
them. -/
theorem entries?_directory
    (hnames : ∀ e ∈ entries, (Text.Utf8.encode e.1.toList).length < Nat.pow 256 2)
    (hsizes : ∀ e ∈ entries, e.2.length ≤ longOffset) (hshift : d.shift = 0)
    (hparts : bytes.drop offset = localParts entries ++ after)
    (hend : offset + (localParts entries).length = d.start) (htotal : d.start < Nat.pow 256 8)
    (rest : List UInt8) :
    entries? bytes d entries.length (directory offset entries ++ rest) =
      some (entries.map fun (name, content) => stored name content) := by
  induction entries generalizing offset with
  | nil => rfl
  | cons e entries ih =>
    obtain ⟨name, content⟩ := e
    obtain ⟨hname, hnames⟩ := List.forall_mem_cons.mp hnames
    obtain ⟨hsize, hsizes⟩ := List.forall_mem_cons.mp hsizes
    rw [localParts_cons, List.append_assoc] at hparts
    rw [localParts_cons, List.length_append] at hend
    have hinside : offset + (localPart name content).length ≤ d.start := by omega
    have hentry : entry? bytes d (centralHeader name content offset) =
        some (stored name content) :=
      entry?_centralHeader hname hsize (by omega) hshift hparts hinside
    have hmore : bytes.drop (offset + (localPart name content).length) =
        localParts entries ++ after := by
      rw [← List.drop_drop, hparts, List.drop_left]
    have hnext : offset + (localPart name content).length + (localParts entries).length =
        d.start := by omega
    rw [directory, List.length_cons, entries?, List.append_assoc,
      CentralHeader.decode?_encode (fits_centralHeader hname hsize offset)]
    simp only [Option.bind_eq_bind, Option.bind_some, hentry,
      ih hnames hsizes hmore hnext]
    rfl

/-- What is written is listed: one stored entry for each that was written, in their order. -/
theorem listed?_encode (h : Writable entries) :
    listed? (encode entries) = some (entries.map fun (name, content) => stored name content) := by
  by_cases hne : entries = []
  · subst hne
    rfl
  obtain ⟨rest, hdirectory⟩ := exists_directory_eq 0 hne
  have hcount : 0 < entries.length := List.length_pos_iff.mpr hne
  have htotal := h.total
  have hbytes : encode entries = localParts entries ++ (directory 0 entries ++
      ending entries.length (localParts entries).length (directory 0 entries).length) :=
    List.append_assoc _ _ _
  have hfront : encode entries = (localParts entries ++ (directory 0 entries ++
      longEnding entries.length (localParts entries).length (directory 0 entries).length)) ++
        (endRecord entries.length (localParts entries).length
          (directory 0 entries).length).encode := by
    rw [hbytes, ending]
    simp only [List.append_assoc]
  have hat := directoryAt?_ending hbytes hdirectory hcount (length_directory_ge 0 entries) htotal
  have hfound : entries? (encode entries) ⟨0, (localParts entries).length, entries.length, 0, 0⟩
      entries.length (directory 0 entries ++
        ending entries.length (localParts entries).length (directory 0 entries).length) =
        some (entries.map fun (name, content) => stored name content) :=
    entries?_directory h.names h.sizes rfl (List.drop_zero.trans hbytes) (Nat.zero_add _)
      (Nat.lt_of_le_of_lt (by simp [hbytes]) htotal) _
  have hdrop : (encode entries).drop (localParts entries).length = directory 0 entries ++
      ending entries.length (localParts entries).length (directory 0 entries).length := by
    rw [hbytes, List.drop_left]
  rw [hfront]
  apply listed?_eq_some
  rw [← hfront, List.length_append, List.length_append, ← Nat.add_assoc, listedAt?, hat]
  simp only [Option.bind_eq_bind, Option.bind_some, ne_eq, not_true_eq_false, if_false, hdrop,
    hfound]

/-- Entries of different names are all kept. -/
theorem foldl_distinct_add {kept : List Entry}
    (h : ((kept ++ es).map Entry.name).Nodup) : es.foldl distinct.add kept = kept ++ es := by
  induction es generalizing kept with
  | nil => exact (List.append_nil kept).symm
  | cons e es ih =>
    have hnew : (kept.any fun k => k.name = e.name) = false := by
      rw [List.any_eq_false]
      intro k hk hname
      rw [List.map_append, List.map_cons] at h
      have hdisjoint := (List.nodup_append.mp h).2.2
      exact hdisjoint k.name (List.mem_map_of_mem hk) e.name List.mem_cons_self
        (of_decide_eq_true hname)
    have hadd : distinct.add kept e = kept ++ [e] := by
      rw [distinct.add, hnew]
      rfl
    rw [List.foldl_cons, hadd, ih (by rwa [List.append_assoc]), List.append_assoc]
    rfl

/-- Where all names differ, no entry is lost for its name. -/
theorem decode?_encode (h : Writable entries) (hnames : (entries.map Prod.fst).Nodup) :
    decode? (encode entries) = some (entries.map fun (name, content) => stored name content) := by
  have hdistinct : distinct (entries.map fun (name, content) => stored name content) =
      entries.map fun (name, content) => stored name content := by
    show List.foldl distinct.add [] _ = [] ++ _
    apply foldl_distinct_add
    rw [List.nil_append, List.map_map]
    exact hnames
  rw [decode?, listed?_encode h, Option.map_some, hdistinct]

end CorpusAnnotator.Archive
