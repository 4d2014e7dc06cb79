/-! Cutting a text at every occurrence of a separator: the parts put together again with the
separator between them are the text. -/
namespace CorpusAnnotator.Text

/-- The parts between the separators; one more than there are separators. -/
def split (separator : Char) : List Char → List (List Char)
  | [] => [[]]
  | c :: rest =>
    match split separator rest with
    | [] => [[c]]
    | part :: parts => if c = separator then [] :: part :: parts else (c :: part) :: parts

/-- The parts joined, with the separator between them. -/
def unsplit (separator : Char) : List (List Char) → List Char
  | [] => []
  | [part] => part
  | part :: next :: parts => part ++ separator :: unsplit separator (next :: parts)

theorem split_ne_nil (separator : Char) (text : List Char) : split separator text ≠ [] := by
  cases text with
  | nil => simp [split]
  | cons c rest => unfold split; split <;> (try split) <;> simp

theorem unsplit_split (separator : Char) (text : List Char) :
    unsplit separator (split separator text) = text := by
  induction text with
  | nil => rfl
  | cons c rest ih =>
    unfold split
    split
    · next h => exact absurd h (split_ne_nil separator rest)
    · next part parts h =>
      rw [h] at ih
      split
      · next hc => simp [unsplit, ih, hc]
      · cases parts with
        | nil => simpa [unsplit] using ih
        | cons q qs => simpa [unsplit] using ih

/-- No part holds the separator. -/
theorem separator_notMem_split {separator : Char} {text part : List Char}
    (h : part ∈ split separator text) : separator ∉ part := by
  induction text generalizing part with
  | nil => simp [split] at h; simp [h]
  | cons c rest ih =>
    unfold split at h
    split at h
    · next hn => exact absurd hn (split_ne_nil separator rest)
    · next p ps hp =>
      split at h
      · rcases List.mem_cons.mp h with rfl | h
        · simp
        · exact ih (hp ▸ h)
      · next hc =>
        rcases List.mem_cons.mp h with rfl | h
        · simpa [Ne.symm hc] using ih (hp ▸ List.mem_cons_self)
        · exact ih (hp ▸ List.mem_cons_of_mem p h)

end CorpusAnnotator.Text
