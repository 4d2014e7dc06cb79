import CorpusAnnotator.Text.Blank
import CorpusAnnotator.Text.Split

/-! Cutting a text where two texts meet, and the blanks at an end. A separator between two texts
keeps their parts apart; blanks behind a text are dropped with it, and anything else keeps what is
before it. -/
namespace CorpusAnnotator.Text

variable {separator c : Char} {text rest part : List Char}

/-! ## Parts -/

theorem split_separator (separator : Char) (rest : List Char) :
    split separator (separator :: rest) = [] :: split separator rest := by
  rw [split]
  cases hparts : split separator rest with
  | nil => exact absurd hparts (split_ne_nil separator rest)
  | cons part parts => simp only [if_true]

/-- A character that is no separator goes to the first part. -/
theorem split_cons_of_ne (h : c ≠ separator) (hrest : split separator rest = part :: parts) :
    split separator (c :: rest) = (c :: part) :: parts := by
  rw [split, hrest]
  simp only [if_neg h]

theorem exists_split_eq (separator : Char) (text : List Char) :
    ∃ part parts, split separator text = part :: parts :=
  List.exists_cons_of_ne_nil (split_ne_nil separator text)

theorem split_append_separator (separator : Char) (text rest : List Char) :
    split separator (text ++ separator :: rest) =
      split separator text ++ split separator rest := by
  induction text with
  | nil => exact split_separator separator rest
  | cons c text ih =>
    by_cases hc : c = separator
    · subst hc
      rw [List.cons_append, split_separator, split_separator, ih, List.cons_append]
    · obtain ⟨part, parts, hparts⟩ := exists_split_eq separator text
      rw [hparts] at ih
      rw [List.cons_append, split_cons_of_ne hc ih, split_cons_of_ne hc hparts]
      rfl

theorem split_of_notMem (h : separator ∉ text) : split separator text = [text] := by
  induction text with
  | nil => rfl
  | cons c text ih =>
    have hc : c ≠ separator := fun hc => h (hc ▸ List.mem_cons_self)
    exact split_cons_of_ne hc (ih fun htext => h (List.mem_cons_of_mem c htext))

/-- There are two parts exactly where there is one separator. -/
theorem split_eq_pair_iff {before after : List Char} :
    split separator text = [before, after] ↔
      text = before ++ separator :: after ∧ separator ∉ before ∧ separator ∉ after := by
  constructor
  · intro h
    have htext := unsplit_split separator text
    rw [h] at htext
    exact ⟨htext.symm, separator_notMem_split (h ▸ List.mem_cons_self),
      separator_notMem_split (h ▸ List.mem_cons_of_mem _ List.mem_cons_self)⟩
  · rintro ⟨rfl, hbefore, hafter⟩
    rw [split_append_separator, split_of_notMem hbefore, split_of_notMem hafter]
    rfl

theorem length_split (separator : Char) (text : List Char) :
    (split separator text).length = text.count separator + 1 := by
  induction text with
  | nil => rfl
  | cons c text ih =>
    by_cases hc : c = separator
    · subst hc
      rw [split_separator, List.length_cons, ih, List.count_cons_self]
    · obtain ⟨part, parts, hparts⟩ := exists_split_eq separator text
      rw [hparts] at ih
      rw [split_cons_of_ne hc hparts, List.count_cons_of_ne hc, ← ih, List.length_cons,
        List.length_cons]

/-! ## Blanks at the end -/

theorem trimEnd_eq_nil_iff : trimEnd text = [] ↔ ∀ c ∈ text, isBlank c = true := by
  unfold trimEnd
  rw [List.reverse_eq_nil_iff]
  constructor
  · intro h c hc
    have hall := List.takeWhile_append_dropWhile (p := isBlank) (l := text.reverse)
    rw [h, List.append_nil] at hall
    have hblank := List.all_takeWhile (p := isBlank) (l := text.reverse)
    rw [hall, List.all_reverse] at hblank
    exact List.all_eq_true.mp hblank c hc
  · intro h
    rw [← List.append_nil text.reverse, List.dropWhile_append_of_pos]
    · rfl
    · exact fun c hc => h c (List.mem_reverse.mp hc)

theorem trimEnd_prefix : trimEnd text <+: text := by
  have hsuffix := (List.dropWhile_suffix isBlank (l := text.reverse))
  rw [← List.reverse_prefix, List.reverse_reverse] at hsuffix
  exact hsuffix

/-- Blanks behind a text change nothing at its end. -/
theorem trimEnd_append_of_blank (h : ∀ c ∈ rest, isBlank c = true) (text : List Char) :
    trimEnd (text ++ rest) = trimEnd text := by
  unfold trimEnd
  rw [List.reverse_append, List.dropWhile_append_of_pos]
  exact fun c hc => h c (List.mem_reverse.mp hc)

/-- What is not blank keeps everything in front of it. -/
theorem trimEnd_append (h : trimEnd rest ≠ []) (text : List Char) :
    trimEnd (text ++ rest) = text ++ trimEnd rest := by
  unfold trimEnd at h ⊢
  have hne : ¬ (rest.reverse.dropWhile isBlank).isEmpty = true := by
    rw [List.isEmpty_iff]
    exact fun hnil => h (by rw [hnil, List.reverse_nil])
  rw [List.reverse_append, List.dropWhile_append, if_neg hne, List.reverse_append,
    List.reverse_reverse]

theorem trim_eq_nil_iff : trim text = [] ↔ ∀ c ∈ text, isBlank c = true := by
  have hsplit := List.takeWhile_append_dropWhile (p := isBlank) (l := text)
  unfold trim
  rw [trimEnd_eq_nil_iff]
  constructor
  · intro h c hc
    rw [← hsplit] at hc
    rcases List.mem_append.mp hc with hc | hc
    · exact List.all_eq_true.mp List.all_takeWhile c hc
    · exact h c hc
  · intro h c hc
    exact h c ((List.dropWhile_sublist _).subset hc)

/-- A text without blanks at its end does not end with one. -/
theorem not_isBlank_of_trimEnd (h : trimEnd text = part ++ [c]) : isBlank c = false := by
  have hdrop : text.reverse.dropWhile isBlank = c :: part.reverse := by
    rw [← List.reverse_reverse (text.reverse.dropWhile isBlank)]
    exact (congrArg List.reverse h).trans List.reverse_concat
  have hhead := List.head?_dropWhile_not isBlank text.reverse
  rw [hdrop] at hhead
  exact hhead

end CorpusAnnotator.Text
