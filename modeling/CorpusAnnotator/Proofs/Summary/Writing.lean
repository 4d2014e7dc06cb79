import CorpusAnnotator.Proofs.Files.ReadBack
import CorpusAnnotator.Proofs.Text.Utf8
import CorpusAnnotator.Summary.Basic

/-! When the summary of a run is written, and what a write that fails leaves of the files. -/
namespace CorpusAnnotator.RunSummary

open Files (Tree)
open Results

variable {summary : RunSummary} {tree tree' : Tree} {path : String} {e : WriteError}

theorem write_eq_ok_iff : summary.write tree path = .ok tree' ↔
    tree.write path summary.toBytes = .ok tree' ∧
      summary.toText.utf8ByteSize ≤ Tree.largestFile := by
  rw [Tree.write_eq_ok_iff, ← Text.Utf8.length_encode_toList, ← toBytes]
  unfold write
  constructor
  · intro h
    obtain ⟨written, hwritten, h⟩ := bind_eq_ok_iff.mp h
    split at h
    · cases h
    · next hsize =>
      cases h
      exact ⟨⟨written, mapError_eq_ok_iff.mp hwritten, rfl⟩, Nat.le_of_not_lt hsize⟩
  · rintro ⟨⟨written, hcreate, rfl⟩, hsize⟩
    rw [mapError_eq_ok_iff.mpr hcreate, ok_bind]
    exact if_neg (Nat.not_lt_of_le hsize)

/-- The file of a summary holds its text. -/
theorem read_write (h : summary.write tree path = .ok tree') :
    tree'.read path = .ok (Text.Utf8.encode summary.toText.toList) :=
  Tree.read_write (write_eq_ok_iff.mp h).1

/-- A summary that is not written leaves all files as they are, or its own beginning in the place of
what the path held. -/
theorem left_of_write (h : summary.write tree path = .error e) :
    e.left = tree ∨ ∃ size, tree.write path (summary.toBytes.take size) = .ok e.left := by
  unfold write at h
  rcases bind_eq_error_iff.mp h with h | ⟨written, hwritten, h⟩
  · obtain ⟨error, -, rfl⟩ := mapError_eq_error_iff.mp h
    exact .inl rfl
  · split at h
    · cases h
      exact .inr ⟨Tree.largestFile,
        Tree.write_eq_ok_iff.mpr ⟨written, mapError_eq_ok_iff.mp hwritten, rfl⟩⟩
    · cases h

end CorpusAnnotator.RunSummary
