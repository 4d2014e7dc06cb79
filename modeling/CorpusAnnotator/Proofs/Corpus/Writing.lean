import CorpusAnnotator.Corpus.Write
import CorpusAnnotator.Proofs.Archive.Records
import CorpusAnnotator.Proofs.Files.ReadBack

/-! When documents are written: the path can be written, each document is short enough for the header
of its entry, and the whole archive finds room in a file. -/
namespace CorpusAnnotator.Corpus

open Archive (length_localPart localParts longOffset)
open Files (Tree)
open Results

variable {tree tree' : Tree} {path : String} {docs : List Document} {index offset : Nat}
  {begun : Nat → Tree} {e : WriteError}

/-- The entries of documents, the first of which is number `index`. -/
def entriesFrom (index : Nat) (docs : List Document) : List (String × List UInt8) :=
  docs.mapIdx fun i d => (entryName (index + i), d)

theorem entriesFrom_cons (index : Nat) (d : Document) (docs : List Document) :
    entriesFrom index (d :: docs) = (entryName index, d) :: entriesFrom (index + 1) docs := by
  unfold entriesFrom
  rw [List.mapIdx_cons]
  congr 1
  apply List.ext_getElem?
  intro i
  simp only [List.getElem?_mapIdx, Nat.add_assoc, Nat.add_comm 1 i]

theorem archiveOf_eq (docs : List Document) :
    archiveOf docs = Archive.encode (entriesFrom 0 docs) := by
  simp only [archiveOf, entriesFrom, Nat.zero_add]

/-- Entries are added as long as no document is too long and all of them find room. -/
theorem addEntries_eq_ok_iff (hoffset : offset ≤ Tree.largestFile) :
    addEntries begun path index offset docs = .ok () ↔
      (∀ d ∈ docs, d.length ≤ longOffset) ∧
        offset + (localParts (entriesFrom index docs)).length ≤ Tree.largestFile := by
  induction docs generalizing index offset with
  | nil => exact ⟨fun _ => ⟨fun d hd => absurd hd List.not_mem_nil, hoffset⟩, fun _ => rfl⟩
  | cons d docs ih =>
    rw [addEntries, entriesFrom_cons, localParts, List.flatMap_cons, ← localParts,
      List.length_append, length_localPart, List.forall_mem_cons]
    split
    · simp only [reduceCtorEq, false_iff]
      omega
    · split
      · simp only [reduceCtorEq, false_iff]
        omega
      · split
        · simp only [reduceCtorEq, false_iff]
          omega
        · rw [ih (by omega)]
          constructor <;> rintro ⟨h, h'⟩
          · exact ⟨⟨by omega, h⟩, by omega⟩
          · exact ⟨h.2, by omega⟩

/-- An entry that is not added leaves the beginning of the archive. -/
theorem left_of_addEntries (h : addEntries begun path index offset docs = .error e) :
    ∃ size, e.left = begun size := by
  induction docs generalizing index offset with
  | nil => cases h
  | cons d docs ih =>
    unfold addEntries at h
    simp only at h
    split at h
    · cases h
      exact ⟨offset, rfl⟩
    · split at h
      · cases h
        exact ⟨offset, rfl⟩
      · split at h
        · cases h
          exact ⟨offset, rfl⟩
        · exact ih h

/-- The entries take up no more than the archive. -/
theorem length_localParts_le (docs : List Document) :
    (localParts (entriesFrom 0 docs)).length ≤ (archiveOf docs).length := by
  rw [archiveOf_eq, Archive.encode, List.length_append, List.length_append]
  omega

theorem write_eq_ok_iff : write tree path docs = .ok tree' ↔
    tree.write path (archiveOf docs) = .ok tree' ∧ (∀ d ∈ docs, d.length ≤ longOffset) ∧
      (archiveOf docs).length ≤ Tree.largestFile := by
  have hle := length_localParts_le docs
  have hadd (begun : Nat → Tree) : addEntries begun path 0 0 docs = .ok () ↔
      (∀ d ∈ docs, d.length ≤ longOffset) ∧
        (localParts (entriesFrom 0 docs)).length ≤ Tree.largestFile := by
    rw [addEntries_eq_ok_iff (Nat.zero_le _), Nat.zero_add]
  rw [Tree.write_eq_ok_iff]
  unfold write
  constructor
  · intro h
    obtain ⟨written, hwritten, h⟩ := bind_eq_ok_iff.mp h
    obtain ⟨⟨⟩, hentries, h⟩ := bind_eq_ok_iff.mp h
    split at h
    · cases h
    · next hsize =>
      cases h
      exact ⟨⟨written, mapError_eq_ok_iff.mp hwritten, rfl⟩, ((hadd _).mp hentries).1,
        Nat.le_of_not_lt hsize⟩
  · rintro ⟨⟨written, hcreate, rfl⟩, hshort, hsize⟩
    simp only [mapError_eq_ok_iff.mpr hcreate, ok_bind,
      (hadd _).mpr ⟨hshort, Nat.le_trans hle hsize⟩, if_neg (Nat.not_lt_of_le hsize)]
    rfl

/-- Documents that are not written leave all files as they are, or the beginning of the archive in
the place of what the path held. -/
theorem left_of_write (h : write tree path docs = .error e) :
    e.left = tree ∨ ∃ size, tree.write path ((archiveOf docs).take size) = .ok e.left := by
  unfold write at h
  rcases bind_eq_error_iff.mp h with h | ⟨written, hwritten, h⟩
  · obtain ⟨error, -, rfl⟩ := mapError_eq_error_iff.mp h
    exact .inl rfl
  · have hcreate := mapError_eq_ok_iff.mp hwritten
    have hbegun : ∃ size, e.left = written ((archiveOf docs).take size) := by
      rcases bind_eq_error_iff.mp h with h | ⟨⟨⟩, -, h⟩
      · exact left_of_addEntries h
      · split at h
        · cases h
          exact ⟨Tree.largestFile, rfl⟩
        · cases h
    obtain ⟨size, hleft⟩ := hbegun
    exact .inr ⟨size, Tree.write_eq_ok_iff.mpr ⟨written, hcreate, hleft.symm⟩⟩

/-- What is read from the path is the archive, whatever stood there before. -/
theorem read_write (h : write tree path docs = .ok tree') :
    tree'.read path = .ok (archiveOf docs) :=
  Tree.read_write (write_eq_ok_iff.mp h).1

end CorpusAnnotator.Corpus
