import CorpusAnnotator.Proofs.CommandLine.Counts
import CorpusAnnotator.Proofs.Config.Resolution
import CorpusAnnotator.Proofs.Settings.OneValue

/-! Counts from the command line to the configuration. On their way they become signed words, of
which the larger ones are negative and no counts any more, so a count arrives as it was given or not
at all. -/
namespace CorpusAnnotator

open CommandLine (CountOption)
open Results
open Settings

namespace CommandLine.CountOption

/-- The setting that an option gives a value. -/
def key : CountOption → Config.Key
  | .threads => .threads
  | .batchSize => .batchSize

/-- The count in a configuration. -/
def countOf (o : CountOption) (c : Config) : Nat :=
  match o with
  | .threads => c.model.threads
  | .batchSize => c.corpus.batchSize

/-- A configuration with another count. -/
def setCount (o : CountOption) (n : Nat) (c : Config) : Config :=
  match o with
  | .threads => { c with model := { c.model with threads := n } }
  | .batchSize => { c with corpus := { c.corpus with batchSize := n } }

theorem valueOf_withCount (o : CountOption) (n : Nat) (v : Overrides) (k : Config.Key) :
    (o.withCount n v).valueOf k = if k = o.key then some (.integer n) else v.valueOf k := by
  cases o <;> cases k <;> rfl

theorem valueOf_setCount (o : CountOption) (n : Nat) (c : Config) (k : Config.Key) :
    (o.setCount n c).valueOf k = if k = o.key then some (.integer n) else c.valueOf k := by
  cases o <;> cases k <;> rfl

end CommandLine.CountOption

namespace Config

variable {root root' v : Value} {c raw : Config} {n m : Nat} {o : CountOption} {k : Key}
  {layer : Layer} {entries entries' : List (String × Value)} {name s : String} {index : Nat}

/-! ## Signed words -/

/-- Up to the middle of its range a word is the count that it was; from there on it is none. -/
theorem toCount?_signedWord (h : n ≤ Number.maxNat64) :
    Value.toCount? (.integer (signedWord n)) = if n ≤ Number.maxInt64 then some n else none := by
  split
  · next hsmall => rw [signedWord_eq hsmall, toCount?_integer]
  · next hlarge =>
    have hnegative : ¬ 0 ≤ signedWord n := by
      simp only [Number.maxNat64, Number.maxInt64] at h hlarge
      rw [signedWord, Int.bmod_def]
      simp only [Number.wordSize]
      omega
    rw [Value.toCount?, if_neg hnegative]

/-! ## Reading one count -/

theorem exists_table_of_find? (h : root.find? [s, name] = some v) :
    ∃ entries, root.entries.lookup s = some (.table entries) ∧ entries.lookup name = some v := by
  obtain ⟨w, hw, hv⟩ := Option.bind_eq_some_iff.mp h
  obtain ⟨v', hv', heq⟩ := Option.bind_eq_some_iff.mp hv
  cases heq
  cases w with
  | table entries => exact ⟨entries, hw, hv'⟩
  | _ => cases hv'

/-- The count of a configuration is what stands in its place. -/
theorem toCount?_of_ofSettings (h : ofSettings root = .ok c)
    (hfind : root.find? o.key.names = some v) : v.toCount? = some (o.countOf c) := by
  obtain ⟨raw, ⟨ms, hms, hmodel⟩, ⟨cs, hcs, hcorpus⟩, -, -, -, rfl⟩ :=
    ofSettings_eq_ok_iff_sections.mp h
  cases o with
  | threads =>
    obtain ⟨entries, hentries, hv⟩ := exists_table_of_find? hfind
    cases (of_table hentries).symm.trans hms
    obtain ⟨-, hthreads, -⟩ := modelOf_eq_value_iff.mp hmodel
    obtain ⟨w, hw, hcount⟩ := required_eq_value_iff.mp hthreads
    cases hv.symm.trans hw
    exact hcount
  | batchSize =>
    obtain ⟨entries, hentries, hv⟩ := exists_table_of_find? hfind
    cases (of_table hentries).symm.trans hcs
    obtain ⟨-, hbatchSize, -⟩ := corpusOf_eq_value_iff.mp hcorpus
    obtain ⟨w, hw, hcount⟩ := required_eq_value_iff.mp hbatchSize
    cases hv.symm.trans hw
    exact hcount

theorem required_congr {α : Type} (h : entries.lookup name = entries'.lookup name)
    (convert : Value → Option α) :
    (Section.named s entries).required convert index name =
      (Section.named s entries').required convert index name := by
  simp only [Section.required, Section.find?, h]

theorem optional_congr (h : entries.lookup name = entries'.lookup name) :
    (Section.named s entries).optional index name =
      (Section.named s entries').optional index name := by
  simp only [Section.optional, Section.find?, h]

theorem of_congr (h : root.entries.lookup s = root'.entries.lookup s) :
    Section.of s root = Section.of s root' := by
  rw [Section.of, Section.of, h]

/-- Where one value of a section differs, the section is a table in both, and the rest of it is the
same, as are the other sections. -/
theorem exists_entries_of_sameBut (h : SameBut [s, name] root root') :
    ∃ inner inner', root.entries.lookup s = some (.table inner) ∧
      root'.entries.lookup s = some (.table inner') ∧
      (∀ other ≠ name, inner.lookup other = inner'.lookup other) ∧
      ∀ other ≠ s, root.entries.lookup other = root'.entries.lookup other := by
  obtain ⟨_, _, rfl, rfl, hothers, _, _, hinner, hinner', inner, inner', rfl, rfl, hsame, -⟩ := h
  exact ⟨inner, inner', hinner, hinner', hsame, hothers⟩

/-- With another count in its place, and no other difference, the configuration is the same but for
this count. -/
theorem ofSettings_of_sameBut (h : SameBut o.key.names root root')
    (hfind : root'.find? o.key.names = some v) (hv : v.toCount? = some n)
    (hc : ofSettings root = .ok c) : ofSettings root' = .ok (o.setCount n c) := by
  obtain ⟨raw, ⟨ms, hms, hmodel⟩, ⟨cs, hcs, hcorpus⟩, ⟨es, hes, hevaluation⟩, ⟨ls, hls, hlogging⟩,
    hsummary, rfl⟩ := ofSettings_eq_ok_iff_sections.mp hc
  cases o with
  | threads =>
    obtain ⟨inner, inner', hinner, hinner', hsame, hothers⟩ := exists_entries_of_sameBut h
    obtain ⟨found, hfound, hcount⟩ := exists_table_of_find? hfind
    cases hinner'.symm.trans hfound
    cases (of_table hinner).symm.trans hms
    obtain ⟨hinput, -, hinputName, houtputName, hlibrary⟩ := modelOf_eq_value_iff.mp hmodel
    refine ofSettings_eq_ok_iff_sections.mpr ⟨CountOption.threads.setCount n raw,
      ⟨_, of_table hinner', modelOf_eq_value_iff.mpr
        ⟨?_, required_eq_value_iff.mpr ⟨v, hcount, hv⟩, ?_, ?_, ?_⟩⟩,
      ⟨cs, (of_congr (hothers _ (by decide))).symm.trans hcs, hcorpus⟩,
      ⟨es, (of_congr (hothers _ (by decide))).symm.trans hes, hevaluation⟩,
      ⟨ls, (of_congr (hothers _ (by decide))).symm.trans hls, hlogging⟩,
      hothers "summary" (by decide) ▸ hsummary, rfl⟩
    · exact (required_congr (hsame _ (by decide)) _).symm.trans hinput
    · exact (required_congr (hsame _ (by decide)) _).symm.trans hinputName
    · exact (required_congr (hsame _ (by decide)) _).symm.trans houtputName
    · exact (optional_congr (hsame _ (by decide))).symm.trans hlibrary
  | batchSize =>
    obtain ⟨inner, inner', hinner, hinner', hsame, hothers⟩ := exists_entries_of_sameBut h
    obtain ⟨found, hfound, hcount⟩ := exists_table_of_find? hfind
    cases hinner'.symm.trans hfound
    cases (of_table hinner).symm.trans hcs
    obtain ⟨hpath, -, houtput⟩ := corpusOf_eq_value_iff.mp hcorpus
    refine ofSettings_eq_ok_iff_sections.mpr ⟨CountOption.batchSize.setCount n raw,
      ⟨ms, (of_congr (hothers _ (by decide))).symm.trans hms, hmodel⟩,
      ⟨_, of_table hinner', corpusOf_eq_value_iff.mpr
        ⟨?_, required_eq_value_iff.mpr ⟨v, hcount, hv⟩, ?_⟩⟩,
      ⟨es, (of_congr (hothers _ (by decide))).symm.trans hes, hevaluation⟩,
      ⟨ls, (of_congr (hothers _ (by decide))).symm.trans hls, hlogging⟩,
      hothers "summary" (by decide) ▸ hsummary, rfl⟩
    · exact (required_congr (hsame _ (by decide)) _).symm.trans hpath
    · exact (optional_congr (hsame _ (by decide))).symm.trans houtput

/-! ## A count over the other layers -/

/-- A layer beside a setting leaves no other difference than there was in this setting. -/
theorem Dotted.sameBut_over (hlayer : Dotted layer) (hbeside : k.key ∉ layer.map Prod.fst)
    (h : SameBut k.names root root') : SameBut k.names (layer.over root) (layer.over root') := by
  induction layer generalizing root root' with
  | nil => exact h
  | cons e layer ih =>
    obtain ⟨path, hkey, hpath, hover⟩ := hlayer.over_cons
    rw [List.map_cons, List.mem_cons, not_or] at hbeside
    obtain ⟨hne, hrest⟩ := hbeside
    have hk : path ≠ k.names := fun hk => hne ((hpath.key_eq_iff.mpr hk).trans hkey.symm)
    obtain ⟨hleads, hback⟩ := (hpath.beside k).resolve_left hk
    rw [hover, hover]
    exact ih hlayer.tail hrest (h.setAt hback hleads e.2)

theorem over_append (layer layer' : Layer) (root : Value) :
    Layer.over (layer ++ layer') root = layer'.over (layer.over root) :=
  List.foldl_append

/-- In the layer of the command line a count has its place, whatever it is. -/
theorem exists_overrideLayer_eq (o : CountOption) (v : Overrides) : ∃ before after : Layer,
    ∀ n, overrideLayer (o.withCount n v) =
      before ++ (o.key.key, .integer (signedWord n)) :: after := by
  have hoptions : ∃ before after, ∀ n, overrideOptions (o.withCount n v) =
      before ++ (o.key.key, some (.integer (signedWord n))) :: after := by
    cases o with
    | threads => exact ⟨(overrideOptions v).take 1, (overrideOptions v).drop 2, fun n => rfl⟩
    | batchSize => exact ⟨(overrideOptions v).take 4, (overrideOptions v).drop 5, fun n => rfl⟩
  obtain ⟨before, after, hoptions⟩ := hoptions
  refine ⟨Entries.present before, Entries.present after, fun n => ?_⟩
  rw [overrideLayer, hoptions, Entries.present, List.filterMap_append]
  rfl

/-- With another count on the command line, the table of all layers differs in this count alone. -/
theorem sameBut_resolve (o : CountOption) (n m : Nat) (v : Overrides) (defaults : Layer)
    (sources : List Layer) : SameBut o.key.names
      (resolve defaults sources (overrideLayer (o.withCount n v)))
      (resolve defaults sources (overrideLayer (o.withCount m v))) := by
  obtain ⟨before, after, hlayer⟩ := exists_overrideLayer_eq o v
  have hdotted := dotted_overrideLayer (o.withCount n v)
  rw [hlayer] at hdotted
  have hbehind := hdotted.sublist (List.sublist_append_right before _)
  obtain ⟨hnew, -⟩ := List.nodup_cons.mp hbehind.distinct
  have hset : ∀ n root, setKey o.key.key (.integer (signedWord n)) root =
      setAt (.integer (signedWord n)) o.key.names root :=
    fun n root => setKey_keyOf o.key.plain o.key.separate.ne_nil rfl root
  simp only [resolve, hlayer, over_append, over_cons, hset]
  exact hbehind.tail.sameBut_over hnew (sameBut_setAt ..)

/-- And this is where the count stands in it. -/
theorem find?_resolve (o : CountOption) (n : Nat) (v : Overrides) (defaults : Layer)
    (sources : List Layer) :
    (resolve defaults sources (overrideLayer (o.withCount n v))).find? o.key.names =
      some (.integer (signedWord n)) := by
  have hlookup : (overrideLayer (o.withCount n v)).lookup o.key.key =
      some (.integer (signedWord n)) := by
    rw [lookup_overrideLayer, o.valueOf_withCount, if_pos rfl]
    rfl
  simp only [resolve, (dotted_overrideLayer _).find?_over, hlookup, Option.some_or]

/-! ## Loading with a count -/

section

variable {tree : Files.Tree} {path : Option String} {overrides : Overrides}
  {environment : List (String × String)}

theorem exists_file_of_load (h : load tree path overrides environment = .ok c) :
    ∃ layer, path.elim (.ok []) (fileLayer tree) = .ok layer := by
  cases path with
  | none => exact ⟨[], rfl⟩
  | some file =>
    cases hfile : fileLayer tree file with
    | ok layer => exact ⟨layer, hfile⟩
    | error e =>
      rw [load, hfile] at h
      cases h

theorem ofSettings_of_load (h : load tree path overrides environment = .ok c) :
    ∃ layer, path.elim (.ok []) (fileLayer tree) = .ok layer ∧ ofSettings (resolve defaultLayer
      [layer, environmentLayer variableMark environment] (overrideLayer overrides)) = .ok c := by
  obtain ⟨layer, hfile⟩ := exists_file_of_load h
  rw [load_of_file hfile, mapError_eq_ok_iff] at h
  exact ⟨layer, hfile, h⟩

/-- A word that is loaded as a count is the one that was given, and no larger than signed words. -/
theorem countOf_of_load (hle : n ≤ Number.maxNat64)
    (h : load tree path (o.withCount n overrides) environment = .ok c) :
    o.countOf c = n ∧ n ≤ Number.maxInt64 := by
  obtain ⟨layer, -, hc⟩ := ofSettings_of_load h
  have hcount := toCount?_of_ofSettings hc (find?_resolve ..)
  rw [toCount?_signedWord hle] at hcount
  split at hcount
  · next hsmall => exact ⟨(Option.some.inj hcount).symm, hsmall⟩
  · cases hcount

/-- Where some count is loaded, so is any other that is no larger than signed words. -/
theorem load_of_other (hle : n ≤ Number.maxInt64)
    (h : load tree path (o.withCount m overrides) environment = .ok c) :
    load tree path (o.withCount n overrides) environment = .ok (o.setCount n c) := by
  obtain ⟨layer, hfile, hc⟩ := ofSettings_of_load h
  rw [load_of_file hfile, mapError_eq_ok_iff]
  refine ofSettings_of_sameBut (sameBut_resolve ..) (find?_resolve ..) ?_ hc
  rw [signedWord_eq hle, toCount?_integer]

/-- What there has to be beside a count: a file and variables in order, in which each other setting
finds its value in a configuration. -/
structure OthersFit (o : CountOption) (tree : Files.Tree) (path : Option String)
    (overrides : Overrides) (environment : List (String × String)) (raw : Config) : Prop where
  named : Dotted (environmentLayer variableMark environment)
  file : ∃ layer, path.elim (.ok []) (fileLayer tree) = .ok layer ∧ Orderly (.table layer) ∧
    ∀ k ≠ o.key, k.read (layered overrides environment layer k) = some (raw.valueOf k)

/-- The count is loaded beside them, whatever lower layers say of it. -/
theorem OthersFit.load_eq (h : OthersFit o tree path overrides environment raw)
    (hle : n ≤ Number.maxInt64) :
    load tree path (o.withCount n overrides) environment =
      .ok (normalized (o.setCount n raw)) := by
  obtain ⟨layer, hfile, horderly, hothers⟩ := h.file
  refine (load_eq_ok_iff hfile horderly h.named).mpr ⟨o.setCount n raw, fun k => ?_, rfl⟩
  by_cases hk : k = o.key
  · subst hk
    have hlayered : layered (o.withCount n overrides) environment layer o.key =
        (o.setCount n raw).valueOf o.key := by
      rw [layered, o.valueOf_withCount, o.valueOf_setCount, if_pos rfl, if_pos rfl]
      exact congrArg (some ∘ Value.integer) (signedWord_eq hle)
    rw [hlayered]
    exact read_valueOf (o.setCount n raw) o.key
  · rw [o.valueOf_setCount, if_neg hk, ← hothers k hk, layered, layered, o.valueOf_withCount,
      if_neg hk]

end

end Config

end CorpusAnnotator
