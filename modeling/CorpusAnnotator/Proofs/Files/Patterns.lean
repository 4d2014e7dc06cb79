import CorpusAnnotator.Files.Glob
import CorpusAnnotator.Proofs.Results

/-! Names that are read as patterns. A name without wildcards and brackets matches itself and nothing
else, and one with wildcards still matches itself among others, so the steps of a path lead a
pattern at least to where they lead the path. -/
namespace CorpusAnnotator.Files.Glob

open Results

variable {t : Tree} {p q : Place} {c : Char} {name : String} {steps : List String}
  {text part : List Char} {s : Spot} {spots : List Spot} {u : Bool}

/-! ## Texts -/

/-- A text in which every character is a token by itself. -/
structure Unbracketed (text : List Char) : Prop where
  bracket : '[' ∉ text
  stars : ¬ ['*', '*'] <:+: text

/-- A text in which every character stands for itself. -/
def Literal (text : List Char) : Prop := ∀ c ∈ text, c ≠ '?' ∧ c ≠ '*' ∧ c ≠ '['

instance (text : List Char) : Decidable (Literal text) :=
  decidable_of_iff (text.all fun c => c ≠ '?' ∧ c ≠ '*' ∧ c ≠ '[') (by simp [Literal])

/-- The token of a character outside of brackets. -/
def tokenOf (c : Char) : Token :=
  if c = '?' then .any else if c = '*' then .star else .char c

theorem Unbracketed.of_infix (h : Unbracketed text) (hpart : part <:+: text) :
    Unbracketed part where
  bracket hmem := h.bracket (hpart.subset hmem)
  stars hstars := h.stars (hstars.trans hpart)

theorem Literal.unbracketed (h : Literal text) : Unbracketed text where
  bracket hmem := (h _ hmem).2.2 rfl
  stars hstars := (h '*' (hstars.subset List.mem_cons_self)).2.1 rfl

theorem Literal.of_infix (h : Literal text) (hpart : part <:+: text) : Literal part :=
  fun c hc => h c (hpart.subset hc)

theorem Literal.map_tokenOf (h : Literal text) : text.map tokenOf = text.map .char := by
  refine List.map_congr_left fun c hc => ?_
  obtain ⟨hquestion, hstar, -⟩ := h c hc
  rw [tokenOf, if_neg hquestion, if_neg hstar]

theorem tokens_of_unbracketed (h : Unbracketed text) {fuel : Nat} (hfuel : text.length ≤ fuel) :
    tokens fuel text = .ok (text.map tokenOf) := by
  induction text generalizing fuel with
  | nil => cases fuel <;> rfl
  | cons c rest ih =>
    obtain ⟨fuel, rfl⟩ : ∃ n, fuel = n + 1 := ⟨fuel - 1, by simp at hfuel; omega⟩
    have hrest := ih (h.of_infix (List.suffix_cons c rest).isInfix) (Nat.le_of_succ_le_succ hfuel)
    have hbracket : c ≠ '[' := fun hc => h.bracket (hc ▸ List.mem_cons_self)
    rw [tokens, hrest, List.map_cons, tokenOf]
    by_cases hquestion : c = '?'
    · rw [if_pos hquestion, if_pos hquestion]
      rfl
    · rw [if_neg hquestion, if_neg hquestion]
      by_cases hstar : c = '*'
      · subst hstar
        have hnext : rest.head? ≠ some '*' := by
          intro hhead
          obtain ⟨rest, rfl⟩ := List.head?_eq_some_iff.mp hhead
          exact h.stars (List.prefix_append ['*', '*'] rest).isInfix
        rw [if_pos rfl, if_pos rfl, if_neg hnext]
        rfl
      · rw [if_neg hstar, if_neg hstar, if_neg hbracket]
        rfl

theorem component_of_unbracketed (h : Unbracketed text) :
    component text = .ok (.name (text.map tokenOf)) := by
  have hstars : text ≠ ['*', '*'] := fun hstars => h.stars (hstars ▸ List.infix_rfl)
  rw [component, if_neg hstars, tokens_of_unbracketed h (Nat.le_refl _)]
  rfl

/-! ## Tokens -/

theorem mapM_char?_map_char (text : List Char) :
    (text.map Token.char).mapM literal?.char? = some text := by
  induction text with
  | nil => rfl
  | cons c rest ih => simp [List.mapM_cons, literal?.char?, ih]

theorem literal?_map_char (text : List Char) :
    literal? (text.map .char) = some (String.ofList text) := by
  rw [literal?, mapM_char?_map_char, Option.map_some]

theorem eq_of_char?_tokenOf {d : Char} (h : literal?.char? (tokenOf c) = some d) : d = c := by
  unfold tokenOf at h
  split at h
  · cases h
  · split at h
    · cases h
    · exact (Option.some.inj h).symm

theorem eq_of_mapM_char? {cs : List Char}
    (h : (text.map tokenOf).mapM literal?.char? = some cs) : cs = text := by
  induction text generalizing cs with
  | nil =>
    cases h
    rfl
  | cons c rest ih =>
    rw [List.map_cons, List.mapM_cons] at h
    obtain ⟨d, hd, h⟩ := Option.bind_eq_some_iff.mp h
    obtain ⟨ds, hds, h⟩ := Option.bind_eq_some_iff.mp h
    cases h
    rw [eq_of_char?_tokenOf hd, ih hds]

/-- Characters that all stand for themselves stand for their text. -/
theorem eq_of_literal? (h : literal? (text.map tokenOf) = some name) :
    name = String.ofList text := by
  obtain ⟨cs, hcs, rfl⟩ := Option.map_eq_some_iff.mp h
  rw [eq_of_mapM_char? hcs]

theorem anyEnd_of_holds {holds : List Char → Bool} (h : holds text = true) :
    anyEnd holds text = true := by
  cases text with
  | nil => exact h
  | cons c rest => rw [anyEnd, h, Bool.true_or]

/-- Wildcards match themselves, too. -/
theorem matchTokens_tokenOf (text : List Char) : matchTokens (text.map tokenOf) text = true := by
  induction text with
  | nil => rfl
  | cons c rest ih =>
    rw [List.map_cons, tokenOf]
    split
    · exact ih
    · split
      · have hmore : anyEnd (matchTokens (rest.map tokenOf)) rest = true := anyEnd_of_holds ih
        rw [matchTokens, anyEnd, hmore, Bool.or_true]
      · rw [matchTokens, ih, decide_eq_true rfl]
        rfl

/-! ## Steps -/

/-- A step leads to something: to where it starts, one level up, or to something of its name. -/
theorem enter_eq_ok (h : t.enter p name = .ok q) : t.node? p = some .directory ∧
    ((name = "" ∨ name = ".") ∧ q = p ∨ name = ".." ∧ q = p.parent ∨
      q = p.child name ∧ ∃ n, t.node? (p.child name) = some n) := by
  unfold Tree.enter at h
  split at h
  · cases h
  · cases h
  · next hp =>
    refine ⟨hp, ?_⟩
    split at h
    · next hstay => exact .inl ⟨hstay, (Except.ok.inj h).symm⟩
    · split at h
      · next hup => exact .inr (.inl ⟨hup, (Except.ok.inj h).symm⟩)
      · split at h
        · cases h
        · split at h
          · cases h
          · next n hn => exact .inr (.inr ⟨(Except.ok.inj h).symm, n, hn⟩)

/-- What stands in a directory is named there. -/
theorem mem_names {n : Node} (h : t.node? (p.child name) = some n) : name ∈ t.names p := by
  obtain ⟨before, after, hnodes, -⟩ := List.lookup_eq_some_iff.mp h
  rw [Tree.names, List.mem_mergeSort, List.mem_filterMap]
  refine ⟨(p.child name, n), ?_, ?_⟩
  · rw [hnodes]
    exact List.mem_append_right before List.mem_cons_self
  · exact if_pos ⟨rfl, rfl⟩

/-- A plain name leads to where its step leads. -/
theorem apply_of_literal (hname : Literal name.toList) (h : t.enter s.place name = .ok q)
    (hmoves : ¬ (name = "" ∧ s.untouched = true)) :
    Stride.apply t s (.entry (name.toList.map tokenOf)) =
      [⟨q, s.untouched && name = "."⟩] := by
  rw [Stride.apply, hname.map_tokenOf, literal?_map_char, String.ofList_toList]
  simp only [follow, if_neg hmoves, h]

/-- A name with wildcards leads there, among others. -/
theorem exists_mem_apply (h : t.enter s.place name = .ok q)
    (hmoves : ¬ (name = "" ∧ s.untouched = true)) :
    ∃ u, ⟨q, u⟩ ∈ Stride.apply t s (.entry (name.toList.map tokenOf)) ∧
      (u = true → s.untouched = true ∧ name = ".") := by
  rw [Stride.apply]
  cases hliteral : literal? (name.toList.map tokenOf) with
  | some other =>
    rw [eq_of_literal? hliteral, String.ofList_toList]
    simp only [follow, if_neg hmoves, h]
    exact ⟨_, List.mem_singleton_self _, by simp⟩
  | none =>
    -- the names that do not go down are plain, so something of this name is in the directory
    obtain ⟨hp, ⟨hstay | hstay, -⟩ | ⟨hup, -⟩ | ⟨rfl, n, hn⟩⟩ := enter_eq_ok h
    · exact absurd hliteral (by rw [hstay]; decide)
    · exact absurd hliteral (by rw [hstay]; decide)
    · exact absurd hliteral (by rw [hup]; decide)
    · have hdirectory : isDirectoryAt t s.place = true := decide_eq_true hp
      refine ⟨false, ?_, fun h => absurd h Bool.false_ne_true⟩
      simp only [search, hdirectory, if_true]
      refine List.mem_append_right _ (List.mem_map.mpr ⟨name, ?_, rfl⟩)
      exact List.mem_filter.mpr ⟨mem_names hn, matchTokens_tokenOf name.toList⟩

/-- Steps that do not come to an empty one while they are still where they started. -/
def Moving (steps : List String) : Prop := (steps.dropWhile (· = ".")).head? ≠ some ""

theorem Moving.ne_empty (h : Moving (name :: steps)) : name ≠ "" := by
  rintro rfl
  exact h rfl

theorem Moving.tail (h : Moving (name :: steps)) (hname : name = ".") : Moving steps := by
  subst hname
  exact h

/-- The strides of a path. -/
def stridesOf (steps : List String) : List Stride :=
  steps.map fun name => .entry (name.toList.map tokenOf)

/-- All places that strides lead to from some places. -/
def spotsAfter (t : Tree) (strides : List Stride) (spots : List Spot) : List Spot :=
  strides.foldl (fun spots stride => spots.flatMap fun s => stride.apply t s) spots

theorem spotsAfter_of_literal (hplain : ∀ name ∈ steps, Literal name.toList)
    (hmoving : u = true → Moving steps) (h : steps.foldlM t.enter p = .ok q) :
    ∃ u', spotsAfter t (stridesOf steps) [⟨p, u⟩] = [⟨q, u'⟩] := by
  induction steps generalizing p u with
  | nil =>
    cases h
    exact ⟨u, rfl⟩
  | cons name steps ih =>
    obtain ⟨hname, hplain⟩ := List.forall_mem_cons.mp hplain
    rw [List.foldlM_cons] at h
    obtain ⟨p', hstep, hmore⟩ := bind_eq_ok_iff.mp h
    have happly := apply_of_literal (s := ⟨p, u⟩) hname hstep
      fun ⟨hempty, hu⟩ => (hmoving hu).ne_empty hempty
    have htail : (u && name = ".") = true → Moving steps := by
      intro hu
      rw [Bool.and_eq_true, decide_eq_true_eq] at hu
      exact (hmoving hu.1).tail hu.2
    obtain ⟨u', hspots⟩ := ih hplain htail hmore
    refine ⟨u', ?_⟩
    rw [stridesOf, List.map_cons, spotsAfter, List.foldl_cons, List.flatMap_singleton, happly]
    exact hspots

theorem exists_mem_spotsAfter (hmoving : s.untouched = true → Moving steps)
    (h : steps.foldlM t.enter s.place = .ok q) (hs : s ∈ spots) :
    ∃ u, ⟨q, u⟩ ∈ spotsAfter t (stridesOf steps) spots := by
  induction steps generalizing s spots with
  | nil =>
    cases h
    exact ⟨s.untouched, hs⟩
  | cons name steps ih =>
    rw [List.foldlM_cons] at h
    obtain ⟨p', hstep, hmore⟩ := bind_eq_ok_iff.mp h
    obtain ⟨u, hu, huntouched⟩ := exists_mem_apply hstep
      fun ⟨hempty, hs⟩ => (hmoving hs).ne_empty hempty
    refine ih (s := ⟨p', u⟩) (fun hu' => ?_) hmore (List.mem_flatMap.mpr ⟨s, hs, hu⟩)
    obtain ⟨hstart, hname⟩ := huntouched hu'
    exact (hmoving hstart).tail hname

end CorpusAnnotator.Files.Glob
