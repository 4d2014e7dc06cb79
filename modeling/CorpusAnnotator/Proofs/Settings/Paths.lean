import CorpusAnnotator.Settings.Layers

/-! Keys that are plain names with points between them. Such a key is read as the path of its names,
and setting its value changes what this path leads to and nothing that lies beside it. -/
namespace CorpusAnnotator.Settings

variable {name : String} {path other : List String}

/-! ## Plain names -/

/-- A small letter of ASCII, a digit or a low line. -/
def isPlainChar (c : Char) : Bool :=
  c.isLower || c.isDigit || c = '_'

/-- A name of plain characters, of which there is at least one. -/
def Plain (name : String) : Prop :=
  name.toList ≠ [] ∧ ∀ c ∈ name.toList, isPlainChar c = true

instance (name : String) : Decidable (Plain name) :=
  decidable_of_iff (name.toList ≠ [] ∧ name.toList.all isPlainChar = true)
    (and_congr .rfl List.all_eq_true)

theorem toLower_of_isPlainChar {c : Char} (h : isPlainChar c = true) : c.toLower = c := by
  have hcapital : ¬ (c.val ≥ 'A'.val ∧ c.val ≤ 'Z'.val) := by
    intro hc
    simp only [isPlainChar, Bool.or_eq_true, decide_eq_true_eq] at h
    rcases h with (h | h) | rfl
    · have hsmall : 'a'.val ≤ c.val := of_decide_eq_true (Bool.and_eq_true_iff.mp h).1
      exact absurd (UInt32.le_trans hsmall hc.2) (by decide)
    · have hdigit : c.val ≤ '9'.val := of_decide_eq_true (Bool.and_eq_true_iff.mp h).2
      exact absurd (UInt32.le_trans hc.1 hdigit) (by decide)
    · exact absurd hc.2 (by decide)
  exact dif_neg hcapital

theorem isNameChar_of_isPlainChar {c : Char} (h : isPlainChar c = true) : isNameChar c = true := by
  simp only [isPlainChar, Bool.or_eq_true, decide_eq_true_eq] at h
  simp only [isNameChar, Bool.or_eq_true, decide_eq_true_eq]
  refine .inl (.inl ?_)
  rcases h with (h | h) | h
  · have hletter : c.isAlpha = true := Bool.or_eq_true_iff.mpr (.inr h)
    exact .inl (Bool.or_eq_true_iff.mpr (.inl hletter))
  · exact .inl (Bool.or_eq_true_iff.mpr (.inr h))
  · exact .inr h

theorem Plain.small_eq (h : Plain name) : small name = name := by
  have hlower : Number.lower name.toList = name.toList := by
    rw [Number.lower, List.map_congr_left fun c hc => toLower_of_isPlainChar (h.2 c hc)]
    exact List.map_id _
  rw [small, hlower, String.ofList_toList]

/-! ## Keys of plain names -/

/-- The names of a path with points between them. -/
def spelled : List String → List Char
  | [] => []
  | [name] => name.toList
  | name :: next :: path => name.toList ++ '.' :: spelled (next :: path)

/-- A key as a text. -/
def keyOf (path : List String) : String := String.ofList (spelled path)

/-- What may follow a plain name for it to be read alone. -/
def EndsName (rest : List Char) : Prop := ∀ c ∈ rest.head?, isNameChar c = false

theorem exists_name? (h : Plain name) {text rest : List Char} (htext : text = name.toList ++ rest)
    (hrest : EndsName rest) : ∃ t, name? text = some t ∧ t.value = name ∧ t.rest = rest := by
  subst htext
  obtain ⟨c, cs, hcs⟩ := List.exists_cons_of_ne_nil h.1
  have hchars : ∀ c ∈ name.toList, isNameChar c = true :=
    fun c hc => isNameChar_of_isPlainChar (h.2 c hc)
  rw [hcs, List.forall_mem_cons] at hchars
  have hvalue : (cs ++ rest).takeWhile isNameChar = cs := by
    rw [List.takeWhile_append_of_pos hchars.2]
    cases rest with
    | nil => exact List.append_nil cs
    | cons d rest =>
      rw [List.takeWhile_cons_of_neg (by simp [hrest d rfl]), List.append_nil]
  have hafter : (cs ++ rest).dropWhile isNameChar = rest := by
    rw [List.dropWhile_append_of_pos hchars.2]
    cases rest with
    | nil => rfl
    | cons d rest => rw [List.dropWhile_cons_of_neg (by simp [hrest d rfl])]
  rw [hcs, List.cons_append, name?, if_pos hchars.1]
  refine ⟨_, rfl, ?_, hafter⟩
  show String.ofList (c :: (cs ++ rest).takeWhile isNameChar) = name
  rw [hvalue, ← hcs, String.ofList_toList]

theorem endsName_nil : EndsName [] := nofun

theorem endsName_point (rest : List Char) : EndsName ('.' :: rest) := by
  intro c hc
  obtain rfl := Option.some.inj hc
  decide

theorem steps?_point {text : List Char} {t : Text.Taken String text} (h : name? text = some t) :
    steps? ('.' :: text) = (steps? t.rest).map (.child t.value :: ·) := by
  rw [steps?, h]

theorem steps?_nil : steps? [] = some [] := by rw [steps?]

/-- The names behind the first are read as steps. -/
theorem steps?_spelled (h : ∀ n ∈ path, Plain n) (hne : path ≠ []) :
    steps? ('.' :: spelled path) = some (path.map .child) := by
  induction path with
  | nil => exact absurd rfl hne
  | cons name path ih =>
    obtain ⟨hname, hpath⟩ := List.forall_mem_cons.mp h
    cases path with
    | nil =>
      obtain ⟨t, ht, hvalue, hrest⟩ :=
        exists_name? hname (List.append_nil name.toList).symm endsName_nil
      rw [spelled, steps?_point ht, hvalue, hrest, steps?_nil]
      rfl
    | cons next path =>
      obtain ⟨t, ht, hvalue, hrest⟩ := exists_name? hname rfl (endsName_point _)
      rw [spelled, steps?_point ht, hvalue, hrest, ih hpath (List.cons_ne_nil next path)]
      rfl

theorem read?_of_name? {text : String} {t : Text.Taken String text.toList}
    (h : name? text.toList = some t) :
    KeyPath.read? text = (steps? t.rest).map fun steps => ⟨t.value, steps⟩ := by
  rw [KeyPath.read?, h]
  cases hsteps : steps? t.rest <;> simp [hsteps]

/-- A key of plain names is read as their path. -/
theorem read?_keyOf (h : ∀ n ∈ name :: path, Plain n) :
    KeyPath.read? (keyOf (name :: path)) = some ⟨name, path.map .child⟩ := by
  obtain ⟨hname, hpath⟩ := List.forall_mem_cons.mp h
  have htext : (keyOf (name :: path)).toList = spelled (name :: path) := String.toList_ofList
  cases path with
  | nil =>
    obtain ⟨t, ht, hvalue, hrest⟩ :=
      exists_name? hname (htext.trans (List.append_nil name.toList).symm) endsName_nil
    rw [read?_of_name? ht, hvalue, hrest, steps?_nil]
    rfl
  | cons next path =>
    obtain ⟨t, ht, hvalue, hrest⟩ := exists_name? hname htext (endsName_point _)
    rw [read?_of_name? ht, hvalue, hrest, steps?_spelled hpath (List.cons_ne_nil next path)]
    rfl

theorem keyOf_injective (h : ∀ n ∈ path, Plain n) (hother : ∀ n ∈ other, Plain n)
    (hne : path ≠ []) (hne' : other ≠ []) (hkey : keyOf path = keyOf other) : path = other := by
  obtain ⟨first, rest, rfl⟩ := List.exists_cons_of_ne_nil hne
  obtain ⟨first', rest', rfl⟩ := List.exists_cons_of_ne_nil hne'
  have hread := read?_keyOf h
  rw [hkey, read?_keyOf hother] at hread
  injection hread with hread
  injection hread with hfirst hsteps
  rw [hfirst, (List.map_inj_right fun _ _ => Step.child.inj).mp hsteps]

end CorpusAnnotator.Settings
