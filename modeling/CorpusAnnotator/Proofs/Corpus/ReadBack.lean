import CorpusAnnotator.Corpus.Read
import CorpusAnnotator.Proofs.Archive.RoundTrip
import CorpusAnnotator.Proofs.Corpus.Writing

/-! Documents that have been written are read back. For that the names of the entries have to differ,
since the reader keeps one entry for each name, and none may be that of a directory, since the reader
takes no document from those. -/
namespace CorpusAnnotator.Corpus

open Archive (Entry Writable stored)
open Files (Tree)
open Results

variable {tree tree' later : Tree} {path source : String} {docs : List Document} {i j : Nat}

/-! ## The names of entries -/

theorem toList_entryName (i : Nat) :
    (entryName i).toList = "test.".toList ++ Nat.toDigits 10 i := by
  show ("test." ++ toString i).toList = _
  rw [String.toList_append, Nat.toString_eq_repr, Nat.toList_repr]

theorem entryName_injective (h : entryName i = entryName j) : i = j := by
  have hlist := congrArg String.toList h
  rw [toList_entryName, toList_entryName] at hlist
  have hdigits := List.append_cancel_left hlist
  have hvalue := congrArg (fun digits => Nat.ofDigitChars 10 digits 0) hdigits
  simpa using hvalue

/-- The numbers of entries that a file can hold have few digits. -/
theorem length_encode_entryName_lt (h : i ≤ Tree.largestFile) :
    (Text.Utf8.encode (entryName i).toList).length < Nat.pow 256 2 := by
  have hdigits : (Nat.toDigits 10 i).length ≤ 19 :=
    (Nat.length_toDigits_le_iff (by decide) (by decide)).mpr (Nat.lt_of_le_of_lt h (by decide))
  have hbytes := Text.Utf8.length_encode_le (entryName i).toList
  rw [toList_entryName, List.length_append] at hbytes
  have hstem : "test.".toList.length = 5 := by decide
  have hroom : 4 * 24 < Nat.pow 256 2 := by decide
  rw [toList_entryName]
  omega

/-- A name that ends in a digit is not that of a directory. -/
theorem isDirectory_stored (i : Nat) (d : Document) :
    (stored (entryName i) d).isDirectory = false := by
  have hne : Nat.toDigits 10 i ≠ [] := Nat.toDigits_ne_nil
  have hlast : (entryName i).toList.getLast? = some ((Nat.toDigits 10 i).getLast hne) := by
    rw [toList_entryName, List.getLast?_append, List.getLast?_eq_some_getLast hne, Option.some_or]
  have hdigit := Nat.isDigit_of_mem_toDigits (by decide) (by decide) (List.getLast_mem hne)
  have hname : (stored (entryName i) d).name = entryName i := rfl
  rw [Entry.isDirectory, hname, hlast]
  simp only [Bool.or_eq_false_iff, decide_eq_false_iff_not]
  constructor <;> intro hslash <;> rw [hslash] at hdigit <;> exact absurd hdigit (by decide)

/-! ## The entries of documents -/

theorem map_fst_entriesFrom (index : Nat) (docs : List Document) :
    (entriesFrom index docs).map Prod.fst = docs.mapIdx fun i _ => entryName (index + i) := by
  apply List.ext_getElem?
  intro i
  rw [entriesFrom, List.getElem?_map, List.getElem?_mapIdx, List.getElem?_mapIdx, Option.map_map]
  rfl

theorem nodup_entryName (index : Nat) (docs : List Document) :
    (docs.mapIdx fun i _ => entryName (index + i)).Nodup := by
  rw [List.Nodup, List.pairwise_iff_getElem]
  intro i j hi hj hij heq
  rw [List.getElem_mapIdx, List.getElem_mapIdx] at heq
  have := entryName_injective heq
  omega

/-- Each document takes up some room. -/
theorem length_le_length_localParts (index : Nat) (docs : List Document) :
    docs.length ≤ (Archive.localParts (entriesFrom index docs)).length := by
  induction docs generalizing index with
  | nil => exact Nat.zero_le _
  | cons d docs ih =>
    have hrest := ih (index + 1)
    have hheader : 0 < Archive.LocalHeader.fixedSize := by decide
    rw [entriesFrom_cons, Archive.localParts_cons, List.length_append, Archive.length_localPart,
      List.length_cons]
    omega

theorem writable_entriesFrom (hshort : ∀ d ∈ docs, d.length ≤ Archive.longOffset)
    (hsize : (archiveOf docs).length ≤ Tree.largestFile) : Writable (entriesFrom 0 docs) where
  names e he := by
    obtain ⟨i, hi, rfl⟩ := List.mem_mapIdx.mp he
    have hparts := length_localParts_le docs
    have hcount := length_le_length_localParts 0 docs
    exact length_encode_entryName_lt (by omega)
  sizes e he := by
    obtain ⟨i, hi, rfl⟩ := List.mem_mapIdx.mp he
    exact hshort _ (List.getElem_mem hi)
  total := by
    rw [← archiveOf_eq]
    exact Nat.lt_of_le_of_lt hsize (by decide)

/-- Stored entries give their documents. -/
theorem ofEntries_stored (source : String) (index first : Nat) (docs : List Document) :
    ofEntries source index ((entriesFrom first docs).map fun (name, d) => stored name d) =
      .ok docs := by
  induction docs generalizing index first with
  | nil => rfl
  | cons d docs ih =>
    rw [entriesFrom_cons, List.map_cons, ofEntries, Archive.open_stored, isDirectory_stored,
      Archive.content_stored, ih]
    rfl

theorem map_stored_entriesFrom (docs : List Document) :
    ((entriesFrom 0 docs).map fun (name, d) => stored name d) =
      docs.mapIdx fun i d => stored (entryName i) d := by
  apply List.ext_getElem?
  intro i
  rw [entriesFrom, List.getElem?_map, List.getElem?_mapIdx, List.getElem?_mapIdx, Option.map_map,
    Nat.zero_add]
  rfl

/-! ## Reading back -/

theorem listed?_archiveOf (h : write tree path docs = .ok tree') :
    Archive.listed? (archiveOf docs) =
      some (docs.mapIdx fun i d => stored (entryName i) d) := by
  obtain ⟨-, hshort, hsize⟩ := write_eq_ok_iff.mp h
  rw [archiveOf_eq, Archive.listed?_encode (writable_entriesFrom hshort hsize),
    map_stored_entriesFrom]

/-- Where the bytes of a written archive are, its entries are found. -/
theorem archive?_of_read (h : write tree path docs = .ok tree')
    (hread : later.read source = .ok (archiveOf docs)) :
    archive? later source = some (docs.mapIdx fun i d => stored (entryName i) d) := by
  obtain ⟨-, hshort, hsize⟩ := write_eq_ok_iff.mp h
  have hnames : ((entriesFrom 0 docs).map Prod.fst).Nodup := by
    rw [map_fst_entriesFrom]
    exact nodup_entryName 0 docs
  rw [archive?, hread]
  show Archive.decode? (archiveOf docs) = _
  rw [archiveOf_eq, Archive.decode?_encode (writable_entriesFrom hshort hsize) hnames,
    map_stored_entriesFrom]

theorem read_of_archive (h : archive? tree source =
    some (docs.mapIdx fun i d => stored (entryName i) d)) :
    read tree source = .ok ⟨source, docs⟩ := by
  rw [read, readDocuments, h]
  simp only
  rw [← map_stored_entriesFrom, ofEntries_stored]
  rfl

/-- Reading undoes writing, whatever stood at the path before: the same documents come back in the
same order. The file is their archive and nothing else; its directory lists one stored entry for each
document, with the name of its number, and no name twice. -/
theorem read_back_of_write (h : write tree path docs = .ok tree') :
    read tree' path = .ok ⟨path, docs⟩ ∧
      tree'.read path = .ok (archiveOf docs) ∧
      ∃ entries, Archive.listed? (archiveOf docs) = some entries ∧
        archive? tree' path = some entries ∧
        entries = (docs.mapIdx fun i d => stored ("test." ++ toString i) d) ∧
        (entries.map Entry.name).Nodup := by
  have harchive := archive?_of_read h (read_write h)
  refine ⟨read_of_archive harchive, read_write h, _, listed?_archiveOf h, harchive, rfl, ?_⟩
  rw [← map_stored_entriesFrom, List.map_map]
  show ((entriesFrom 0 docs).map Prod.fst).Nodup
  rw [map_fst_entriesFrom]
  exact nodup_entryName 0 docs

/-- Written over a file that is no archive: no bytes at all, an end record, and the same document
twice. -/
theorem read_back_of_write_end_record :
    let tree : Tree := ⟨[(⟨.above 0, ["a"]⟩, .file [1, 2, 3] true)]⟩
    let docs : List Document := [[], (Archive.endRecord 0 0 0).encode, [7], [7]]
    ∃ tree', write tree "a" docs = .ok tree' ∧ read tree' "a" = .ok ⟨"a", docs⟩ := by
  intro tree docs
  obtain ⟨tree', hwrite⟩ : ∃ tree', write tree "a" docs = .ok tree' :=
    ⟨_, write_eq_ok_iff.mpr ⟨rfl, by decide, by decide +kernel⟩⟩
  exact ⟨tree', hwrite, (read_back_of_write hwrite).1⟩

end CorpusAnnotator.Corpus
