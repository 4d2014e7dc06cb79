import CorpusAnnotator.Proofs.Files.Elsewhere
import CorpusAnnotator.Proofs.Files.Patterns
import CorpusAnnotator.Proofs.Text.Split

/-! Paths that are read as patterns. Both readings cut a text at its slashes, but a pattern has no
part for a slash at either end, and takes no empty step while it is still where it starts. For the
path of a file that is the only difference, unless the path has brackets. -/
namespace CorpusAnnotator.Files.Glob

open Results
open Text (exists_split_eq split split_append_separator split_cons_of_ne split_separator unsplit
  unsplit_split)

variable {t : Tree} {p q start : Place} {path : String} {steps : List String}
  {text part : List Char} {parts : List (List Char)} {bytes : List UInt8} {executable : Bool}

/-! ## Parts -/

/-- Whether a path stays where it starts and takes an empty step then, as `.//a` does. -/
def idles : List Char → Bool
  | '.' :: '/' :: '/' :: _ => true
  | '.' :: '/' :: rest => idles rest
  | _ => false

theorem moving_of_not_idles (hne : text ≠ []) (hfirst : text.head? ≠ some '/')
    (hlast : text.getLast? ≠ some '/') (h : idles text = false) :
    Moving ((split '/' text).map String.ofList) := by
  fun_induction idles text with
  | case1 => cases h
  | case2 rest hrest ih =>
    have hsplit : split '/' ('.' :: '/' :: rest) = ['.'] :: split '/' rest :=
      split_append_separator '/' ['.'] rest
    have hnil : rest ≠ [] := by
      rintro rfl
      exact hlast rfl
    have hhead : rest.head? ≠ some '/' := by
      intro hhead
      obtain ⟨tail, htail⟩ := List.head?_eq_some_iff.mp hhead
      exact hrest tail htail
    obtain ⟨c, tail, rfl⟩ := List.exists_cons_of_ne_nil hnil
    rw [hsplit]
    exact ih hnil hhead hlast h
  | case3 text _ hstay =>
    obtain ⟨part, parts, hsplit⟩ := exists_split_eq '/' text
    have htext := unsplit_split '/' text
    rw [hsplit] at htext
    rw [hsplit, List.map_cons]
    -- the first step is a name, or the only one
    by_cases hpart : part = ['.']
    · cases parts with
      | nil =>
        rw [hpart]
        rintro ⟨⟩
      | cons next parts => exact absurd (htext.symm.trans (by rw [hpart]; rfl)) (hstay _)
    · have hname : String.ofList part ≠ "." := by
        intro hname
        exact hpart (String.ofList_injective hname)
      rw [Moving, List.dropWhile_cons_of_neg (by simpa using hname), List.head?_cons]
      intro hempty
      have hnil : part = [] := String.ofList_injective (Option.some.inj hempty)
      subst hnil
      cases parts with
      | nil => exact hne htext.symm
      | cons next parts => exact hfirst (by rw [← htext]; rfl)

theorem isPrefix_of_split (h : split '/' text = part :: parts) : part <+: text := by
  have htext := unsplit_split '/' text
  rw [h] at htext
  cases parts with
  | nil => exact htext ▸ List.prefix_rfl
  | cons next parts => exact htext ▸ List.prefix_append _ _

theorem infix_of_mem_split (h : part ∈ split '/' text) : part <:+: text := by
  induction text with
  | nil =>
    obtain rfl := List.mem_singleton.mp h
    exact List.infix_rfl
  | cons c rest ih =>
    have hrest : rest <:+: c :: rest := (List.suffix_cons c rest).isInfix
    by_cases hc : c = '/'
    · subst hc
      rw [split_separator] at h
      rcases List.mem_cons.mp h with rfl | h
      · exact List.nil_infix
      · exact (ih h).trans hrest
    · obtain ⟨first, parts, hsplit⟩ := exists_split_eq '/' rest
      rw [split_cons_of_ne hc hsplit] at h
      rcases List.mem_cons.mp h with rfl | h
      · exact ((List.prefix_cons_inj c).mpr (isPrefix_of_split hsplit)).isInfix
      · exact (ih (hsplit ▸ List.mem_cons_of_mem first h)).trans hrest

/-- Only a text that ends with a separator has nothing as its last part. -/
theorem eq_nil_or_of_getLast?_split (h : (split '/' text).getLast? = some []) :
    text = [] ∨ text.getLast? = some '/' := by
  induction text with
  | nil => exact .inl rfl
  | cons c rest ih =>
    right
    obtain ⟨first, parts, hsplit⟩ := exists_split_eq '/' rest
    by_cases hc : c = '/'
    · subst hc
      rw [split_separator, hsplit, List.getLast?_cons_cons, ← hsplit] at h
      rcases ih h with rfl | hlast
      · rfl
      · rw [List.getLast?_cons, hlast]
        rfl
    · rw [split_cons_of_ne hc hsplit] at h
      cases parts with
      | nil => cases h
      | cons next parts =>
        rw [List.getLast?_cons_cons, ← List.getLast?_cons_cons (a := first), ← hsplit] at h
        rcases ih h with rfl | hlast
        · cases hsplit
        · rw [List.getLast?_cons, hlast]
          rfl

theorem getLast?_split_eq_nil_iff :
    (split '/' text).getLast? = some [] ↔ text = [] ∨ text.getLast? = some '/' := by
  constructor
  · exact eq_nil_or_of_getLast?_split
  · rintro (rfl | hlast)
    · rfl
    · obtain ⟨before, rfl⟩ := List.getLast?_eq_some_iff.mp hlast
      rw [split_append_separator]
      exact List.getLast?_concat

/-! ## The path of a file -/

/-- A path without the slashes that it begins with. -/
def relative (path : String) : List Char := path.toList.dropWhile (· = '/')

/-- Where a path starts. -/
def startOf (path : String) : Place := if path.toList.head? = some '/' then ⟨.root, []⟩ else .here

theorem relative_suffix (path : String) : relative path <:+ path.toList :=
  List.dropWhile_suffix _

/-- Slashes at the root stay there. -/
theorem foldlM_enter_dropWhile (t : Tree) (text : List Char) :
    ((split '/' text).map String.ofList).foldlM t.enter ⟨.root, []⟩ =
      ((split '/' (text.dropWhile (· = '/'))).map String.ofList).foldlM t.enter ⟨.root, []⟩ := by
  induction text with
  | nil => rfl
  | cons c rest ih =>
    by_cases hc : c = '/'
    · subst hc
      rw [split_separator, List.map_cons, List.foldlM_cons, List.dropWhile_cons_of_pos (by rfl)]
      exact ih
    · rw [List.dropWhile_cons_of_neg (by simpa using hc)]

theorem relative_of_head? (h : path.toList.head? ≠ some '/') : relative path = path.toList := by
  rw [relative]
  cases htext : path.toList with
  | nil => rfl
  | cons c rest =>
    rw [htext] at h
    refine List.dropWhile_cons_of_neg ?_
    rw [decide_eq_true_eq]
    exact fun hc => h (congrArg some hc)

theorem route_eq_ok (h : Tree.route path = .ok (start, steps)) :
    start = startOf path ∧ steps = (split '/' path.toList).map String.ofList := by
  unfold Tree.route at h
  simp only at h
  split at h
  · cases h
  · split at h
    · cases h
    · split at h
      · cases h
      · obtain ⟨hstart, hsteps⟩ := Prod.mk.inj (Except.ok.inj h)
        exact ⟨hstart.symm, hsteps.symm⟩

theorem foldlM_enter_relative (h : t.resolve path = .ok p) :
    ((split '/' (relative path)).map String.ofList).foldlM t.enter (startOf path) = .ok p := by
  unfold Tree.resolve at h
  obtain ⟨⟨start, steps⟩, hroute, hsteps⟩ := bind_eq_ok_iff.mp h
  obtain ⟨rfl, rfl⟩ := route_eq_ok hroute
  rw [← hsteps]
  by_cases habsolute : path.toList.head? = some '/'
  · rw [startOf, if_pos habsolute, relative, ← foldlM_enter_dropWhile]
  · rw [relative_of_head? habsolute]

/-- An empty step at the end leads to a directory. -/
theorem node?_of_getLast? (h : steps.foldlM t.enter p = .ok q) (hlast : steps.getLast? = some "") :
    t.node? q = some .directory := by
  obtain ⟨before, rfl⟩ := List.getLast?_eq_some_iff.mp hlast
  rw [List.foldlM_append] at h
  obtain ⟨p', -, hstep⟩ := bind_eq_ok_iff.mp h
  rw [List.foldlM_cons] at hstep
  obtain ⟨q', hstep, hq⟩ := bind_eq_ok_iff.mp hstep
  cases hq
  have hstays := Tree.enter_eq_step hstep
  rw [Place.step, if_pos (.inl rfl)] at hstays
  rw [hstays]
  exact (enter_eq_ok hstep).1

/-- The path of a file ends with a name. -/
theorem getLast?_of_file (h : t.resolve path = .ok p)
    (hfile : t.node? p = some (.file bytes executable)) :
    (split '/' (relative path)).getLast? ≠ some [] := by
  intro hlast
  have hdirectory := node?_of_getLast? (foldlM_enter_relative h)
    (by rw [List.getLast?_map, hlast]; rfl)
  rw [hfile] at hdirectory
  cases hdirectory

/-! ## The pattern of a path -/

theorem componentTexts_of_getLast? (hlast : (split '/' text).getLast? ≠ some []) :
    componentTexts text = split '/' text :=
  if_neg fun h => hlast h.1

theorem strides_map_name (names : List (List Token)) :
    strides (names.map .name) = names.map .entry := by
  induction names with
  | nil => rfl
  | cons ts names ih => rw [List.map_cons, List.map_cons, strides, ih]

theorem mapM_component (h : ∀ part ∈ parts, Unbracketed part) :
    parts.mapM component = .ok ((parts.map fun part => part.map tokenOf).map .name) := by
  rw [mapM_eq_ok_iff, List.map_map, List.map_map]
  exact List.map_congr_left fun part hpart => component_of_unbracketed (h part hpart)

/-- The pattern of a path without brackets takes the steps of the path. -/
theorem read_of_unbracketed (h : Unbracketed path.toList)
    (hlast : (split '/' (relative path)).getLast? ≠ some []) :
    Pattern.read path = .ok ⟨startOf path,
      stridesOf ((split '/' (relative path)).map String.ofList), false⟩ := by
  have hparts : ∀ part ∈ split '/' (relative path), Unbracketed part := fun part hpart =>
    h.of_infix ((infix_of_mem_split hpart).trans (relative_suffix path).isInfix)
  have hopen : path.toList.getLast? ≠ some '/' := by
    intro hslash
    obtain ⟨slashes, hslashes⟩ := relative_suffix path
    rw [← hslashes, List.getLast?_append] at hslash
    refine hlast (getLast?_split_eq_nil_iff.mpr ?_)
    cases hrelative : (relative path).getLast? with
    | none => exact .inl (List.getLast?_eq_none_iff.mp hrelative)
    | some c =>
      rw [hrelative] at hslash
      exact .inr hslash
  unfold Pattern.read
  simp only
  rw [← relative, componentTexts_of_getLast? hlast, mapM_component hparts, ok_bind,
    decide_eq_false hopen, strides_map_name]
  simp only [stridesOf, List.map_map, Function.comp_def, String.toList_ofList]
  rfl

theorem expand_eq (t : Tree) (path : String) (steps : List String) :
    Pattern.expand t ⟨startOf path, stridesOf steps, false⟩ =
      (spotsAfter t (stridesOf steps) [⟨startOf path, startOf path = .here⟩]).map Spot.place :=
  List.filter_eq_self.mpr fun _ _ => rfl

/-- The path of a file does not stop where it starts, unless an empty step makes it. -/
theorem moving_relative (hidles : idles path.toList = false)
    (hlast : (split '/' (relative path)).getLast? ≠ some []) (hstart : startOf path = .here) :
    Moving ((split '/' (relative path)).map String.ofList) := by
  have hhead : path.toList.head? ≠ some '/' := by
    intro habsolute
    rw [startOf, if_pos habsolute] at hstart
    cases hstart
  rw [relative_of_head? hhead] at hlast ⊢
  refine moving_of_not_idles (fun hnil => ?_) hhead (fun hslash => ?_) hidles
  · exact hlast (getLast?_split_eq_nil_iff.mpr (.inl hnil))
  · exact hlast (getLast?_split_eq_nil_iff.mpr (.inr hslash))

/-- A path without wildcards and brackets is a pattern of its file and of nothing else. -/
theorem expand_of_literal (hliteral : Literal path.toList) (hidles : idles path.toList = false)
    (h : t.resolve path = .ok p) (hfile : t.node? p = some (.file bytes executable)) :
    ∃ pattern, Pattern.read path = .ok pattern ∧ pattern.expand t = [p] := by
  have hlast := getLast?_of_file h hfile
  have hplain : ∀ name ∈ (split '/' (relative path)).map String.ofList, Literal name.toList := by
    intro name hname
    obtain ⟨part, hpart, rfl⟩ := List.mem_map.mp hname
    rw [String.toList_ofList]
    exact hliteral.of_infix ((infix_of_mem_split hpart).trans (relative_suffix path).isInfix)
  obtain ⟨u, hspots⟩ := spotsAfter_of_literal (u := startOf path = .here) hplain
    (fun hstart => moving_relative hidles hlast (of_decide_eq_true hstart))
    (foldlM_enter_relative h)
  exact ⟨_, read_of_unbracketed hliteral.unbracketed hlast, by rw [expand_eq, hspots]; rfl⟩

/-- A path without brackets is a pattern of its file, among others. -/
theorem mem_expand_of_unbracketed (hunbracketed : Unbracketed path.toList)
    (hidles : idles path.toList = false) (h : t.resolve path = .ok p)
    (hfile : t.node? p = some (.file bytes executable)) :
    ∃ pattern, Pattern.read path = .ok pattern ∧ p ∈ pattern.expand t := by
  have hlast := getLast?_of_file h hfile
  obtain ⟨u, hspot⟩ := exists_mem_spotsAfter (s := ⟨startOf path, startOf path = .here⟩)
    (fun hstart => moving_relative hidles hlast (of_decide_eq_true hstart))
    (foldlM_enter_relative h) List.mem_cons_self
  refine ⟨_, read_of_unbracketed hunbracketed hlast, ?_⟩
  rw [expand_eq]
  exact List.mem_map.mpr ⟨_, hspot, rfl⟩

end CorpusAnnotator.Files.Glob
