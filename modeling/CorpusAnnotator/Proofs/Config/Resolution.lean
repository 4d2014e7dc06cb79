import CorpusAnnotator.Proofs.Config.VariableNames
import CorpusAnnotator.Proofs.Toml.Distinct

/-! Where the values of a configuration come from. The command line goes before the environment, the
environment before the file, and the file before the defaults, for each setting by itself. -/
namespace CorpusAnnotator

open Entries (lookup_of_mem lookup_present map_fst_present_sublist mem_of_lookup)
open Results
open Settings

namespace Config

variable {layer : Layer} {tree : Files.Tree} {path : Option String} {o : Overrides}
  {environment : List (String × String)} {named : Key → Option Value}

/-! ## The defaults -/

theorem lookup_defaultLayer (k : Key) : defaultLayer.lookup k.key = standard.valueOf k := by
  cases k <;> rfl

theorem dotted_defaultLayer : Dotted defaultLayer where
  distinct := by decide
  keys e he := by
    have hall : ∀ e ∈ defaultLayer, ∃ k ∈ Key.all, e.1 = k.key := by decide
    obtain ⟨k, -, hk⟩ := hall e he
    exact ⟨k.names, hk, k.separate⟩
  single := by decide

theorem admits_standard (k : Key) (v : Value) (h : standard.valueOf k = some v) :
    Admits k.kind v := by
  cases k <;> cases h <;> constructor <;> decide

theorem standard_ne_none (k : Key) (h : k.isOptional = false) : standard.valueOf k ≠ none := by
  cases k <;> simp [Key.isOptional, valueOf] at h ⊢

theorem cleared_standard (k : Key) : k.cleared (standard.valueOf k) = standard.valueOf k := by
  cases k <;> rfl

/-! ## The command line -/

/-- Counts of the command line are at most what a signed word holds. -/
structure CountsFit (o : Overrides) : Prop where
  threads : ∀ n ∈ o.threads, n ≤ Number.maxInt64
  batchSize : ∀ n ∈ o.batchSize, n ≤ Number.maxInt64

theorem signedWord_eq {n : Nat} (h : n ≤ Number.maxInt64) : signedWord n = n := by
  rw [signedWord, Int.bmod_eq_of_le] <;> simp only [Number.maxInt64, Number.wordSize] at * <;> omega

/-- A value as the layer of the command line has it. -/
def worded : Value → Value
  | .integer n => .integer (signedWord n.toNat)
  | v => v

theorem map_worded_text (s : Option String) : (s.map Value.text).map worded = s.map .text := by
  cases s <;> rfl

theorem map_worded_count (n : Option Nat) :
    (n.map fun (m : Nat) => Value.integer m).map worded =
      n.map fun m => .integer (signedWord m) := by
  cases n <;> rfl

/-- Counts that fit are told as they are. -/
theorem CountsFit.map_worded (h : CountsFit o) (k : Key) :
    (o.valueOf k).map worded = o.valueOf k := by
  cases k with
  | threads =>
    rw [Overrides.valueOf, map_worded_count]
    exact Option.map_congr fun m hm => congrArg Value.integer (signedWord_eq (h.threads m hm))
  | batchSize =>
    rw [Overrides.valueOf, map_worded_count]
    exact Option.map_congr fun m hm => congrArg Value.integer (signedWord_eq (h.batchSize m hm))
  | enabled | strict =>
    rw [Overrides.valueOf]
    split <;> rfl
  | inputName | outputName | metric | level | format => rfl
  | _ => exact map_worded_text _

theorem nodup_overrideOptions (o : Overrides) : ((overrideOptions o).map Prod.fst).Nodup := by
  have hnames : (overrideOptions o).map Prod.fst = (overrideOptions .none).map Prod.fst := rfl
  rw [hnames]
  decide

theorem lookup_overrideOptions (o : Overrides) (k : Key) :
    ((overrideOptions o).lookup k.key).join = (o.valueOf k).map worded := by
  cases k with
  | threads | batchSize =>
    rw [Overrides.valueOf, map_worded_count]
    rfl
  | enabled | strict =>
    rw [Overrides.valueOf, apply_ite (Option.map worded)]
    rfl
  | inputName | outputName | metric | level | format => rfl
  | _ =>
    rw [Overrides.valueOf, map_worded_text]
    rfl

theorem lookup_overrideLayer (o : Overrides) (k : Key) :
    (overrideLayer o).lookup k.key = (o.valueOf k).map worded := by
  rw [overrideLayer, lookup_present (nodup_overrideOptions o), lookup_overrideOptions]

theorem isTable_valueOf {k : Key} {v : Value} (h : o.valueOf k = some v) : v.isTable = false := by
  cases k with
  | enabled | strict =>
    simp only [Overrides.valueOf] at h
    split at h <;> cases h
    rfl
  | inputName | outputName | metric | level | format => cases h
  | _ =>
    obtain ⟨_, -, rfl⟩ := Option.map_eq_some_iff.mp h
    rfl

theorem isTable_worded (v : Value) : (worded v).isTable = v.isTable := by
  cases v <;> simp only [worded, Value.isTable]

theorem admits_valueOf (h : CountsFit o) (k : Key) (v : Value) (hv : o.valueOf k = some v) :
    Admits k.kind v := by
  cases k with
  | threads =>
    obtain ⟨n, hn, rfl⟩ := Option.map_eq_some_iff.mp hv
    exact .count (h.threads n hn)
  | batchSize =>
    obtain ⟨n, hn, rfl⟩ := Option.map_eq_some_iff.mp hv
    exact .count (h.batchSize n hn)
  | enabled | strict =>
    simp only [Overrides.valueOf] at hv
    split at hv
    · cases hv
      exact .flag true
    · cases hv
  | inputName | outputName | metric | level | format => cases hv
  | _ =>
    obtain ⟨s, -, rfl⟩ := Option.map_eq_some_iff.mp hv
    exact .text s

theorem dotted_overrideLayer (o : Overrides) : Dotted (overrideLayer o) := by
  have hsublist := map_fst_present_sublist (overrideOptions o)
  have hdistinct := hsublist.nodup (nodup_overrideOptions o)
  have hkeys : ∀ e ∈ overrideLayer o, ∃ k : Key, e.1 = k.key := by
    intro e he
    have hall : ∀ n ∈ (overrideOptions .none).map Prod.fst, ∃ k ∈ Key.all, n = k.key := by decide
    obtain ⟨k, -, hk⟩ := hall e.1 (hsublist.subset (List.mem_map_of_mem he))
    exact ⟨k, hk⟩
  refine ⟨hdistinct, fun e he => ?_, fun e he => ?_⟩
  · obtain ⟨k, hk⟩ := hkeys e he
    exact ⟨k.names, hk, k.separate⟩
  · obtain ⟨k, hk⟩ := hkeys e he
    have hlookup : (overrideLayer o).lookup k.key = some e.2 :=
      lookup_of_mem hdistinct (hk ▸ he)
    rw [lookup_overrideLayer] at hlookup
    obtain ⟨v, hv, hworded⟩ := Option.map_eq_some_iff.mp hlookup
    rw [← hworded, isTable_worded]
    exact isTable_valueOf hv

/-! ## The file -/

/-- What a file may say: names are plain, where settings stand in a table there is a table, and each
setting that there is has a value of its kind. -/
structure FileFits (layer : Layer) : Prop where
  plain : ∀ n ∈ layer.map Prod.fst, Plain n
  tables : ∀ s ∈ sections, ∀ v, layer.lookup s = some v →
    ∃ inner, v = .table inner ∧ ∀ n ∈ inner.map Prod.fst, Plain n
  admits : ∀ (k : Key) v, (Value.table layer).find? k.names = some v → Admits k.kind v

theorem map_fst_ofTomlEntries (entries : List (String × Toml.Value)) :
    (Value.ofTomlEntries entries).map Prod.fst = entries.map Prod.fst := by
  induction entries with
  | nil => rfl
  | cons e entries ih => rw [Value.ofTomlEntries, List.map_cons, List.map_cons, ih]

theorem mem_ofTomlEntries {e : String × Value} {entries : List (String × Toml.Value)}
    (h : e ∈ Value.ofTomlEntries entries) : ∃ v, (e.1, v) ∈ entries ∧ e.2 = Value.ofToml v := by
  induction entries with
  | nil => cases h
  | cons entry entries ih =>
    rw [Value.ofTomlEntries] at h
    rcases List.mem_cons.mp h with rfl | h
    · exact ⟨entry.2, List.mem_cons_self, rfl⟩
    · obtain ⟨v, hv, hvalue⟩ := ih h
      exact ⟨v, List.mem_cons_of_mem entry hv, hvalue⟩

/-- No name stands twice in a file, nor in one of its tables. -/
theorem distinct_of_fileLayer {file : String} (h : fileLayer tree file = .ok layer) :
    (layer.map Prod.fst).Nodup ∧
      ∀ e ∈ layer, ∀ inner, e.2 = .table inner → (inner.map Prod.fst).Nodup := by
  unfold fileLayer at h
  split at h
  · cases h
  · split at h
    · cases h
    · split at h
      · cases h
      · next entries hentries =>
        cases h
        obtain ⟨hnames, hvalues⟩ := Toml.distinct_of_document? hentries
        refine ⟨(map_fst_ofTomlEntries entries).symm ▸ hnames, fun e he inner hinner => ?_⟩
        obtain ⟨v, hv, hvalue⟩ := mem_ofTomlEntries he
        rw [hvalue] at hinner
        cases v with
        | table es =>
          rw [Value.ofToml] at hinner
          cases hinner
          rw [map_fst_ofTomlEntries]
          exact hvalues _ hv es rfl
        | _ => rw [Value.ofToml] at hinner; cases hinner

theorem FileFits.orderly (h : FileFits layer)
    (hfile : path.elim (.ok []) (fileLayer tree) = .ok layer) : Orderly (.table layer) := by
  have hdistinct : (layer.map Prod.fst).Nodup ∧
      ∀ e ∈ layer, ∀ inner, e.2 = .table inner → (inner.map Prod.fst).Nodup := by
    cases path with
    | none =>
      cases hfile
      exact ⟨List.nodup_nil, nofun⟩
    | some file => exact distinct_of_fileLayer hfile
  refine ⟨⟨hdistinct.1, h.plain⟩, fun s hs v hv => ?_, fun k v hv => (h.admits k v hv).isTable⟩
  obtain ⟨inner, rfl, hplain⟩ := h.tables s hs v hv
  exact ⟨inner, rfl, hdistinct.2 _ (mem_of_lookup hv) inner rfl, hplain⟩

/-! ## Loading -/

/-- What all layers together say of a setting. -/
def layered (o : Overrides) (environment : List (String × String)) (layer : Layer) (k : Key) :
    Option Value :=
  ((o.valueOf k).map worded).or (((environmentLayer variableMark environment).lookup k.key).or
    (((Value.table layer).find? k.names).or (standard.valueOf k)))

/-- The table of all layers has all sections, and for each setting what the layers say of it. -/
theorem resolve_layered (hlayer : Orderly (.table layer))
    (henvironment : Dotted (environmentLayer variableMark environment)) (o : Overrides) :
    let root := resolve defaultLayer [layer, environmentLayer variableMark environment]
      (overrideLayer o)
    (∀ s ∈ sections, ∃ entries, root.entries.lookup s = some (.table entries)) ∧
      ∀ k : Key, root.find? k.names = layered o environment layer k := by
  intro root
  obtain ⟨horderly, hfind⟩ :=
    resolve_orderly dotted_defaultLayer hlayer henvironment (dotted_overrideLayer o)
  simp only [lookup_overrideLayer, lookup_defaultLayer] at hfind
  refine ⟨fun s hs => horderly.exists_entries (fun k hk => ?_) hs, hfind⟩
  rw [hfind]
  simp only [ne_eq, Option.or_eq_none_iff, not_and]
  intro _ _ _
  exact standard_ne_none k hk

theorem load_of_file (hfile : path.elim (.ok []) (fileLayer tree) = .ok layer) :
    load tree path o environment = (ofSettings (resolve defaultLayer
      [layer, environmentLayer variableMark environment] (overrideLayer o))).mapError .form := by
  cases path with
  | none =>
    cases hfile
    rfl
  | some file =>
    have hread : fileLayer tree file = .ok layer := hfile
    simp only [load, hread, mapError_ok, ok_bind]

/-- A configuration is loaded exactly if each setting takes what the layers say of it. -/
theorem load_eq_ok_iff {c : Config} (hfile : path.elim (.ok []) (fileLayer tree) = .ok layer)
    (hlayer : Orderly (.table layer))
    (henvironment : Dotted (environmentLayer variableMark environment)) :
    load tree path o environment = .ok c ↔
      ∃ raw : Config, (∀ k : Key, k.read (layered o environment layer k) = some (raw.valueOf k)) ∧
        normalized raw = c := by
  obtain ⟨hsections, hfind⟩ := resolve_layered hlayer henvironment o
  rw [load_of_file hfile, mapError_eq_ok_iff, ofSettings_eq_ok_iff hsections]
  simp only [hfind]

/-- What the highest layer above the defaults says of a setting: the command line, the environment,
and at last the file. -/
def said (o : Overrides) (named : Key → Option Value) (layer : Layer) (k : Key) : Option Value :=
  (o.valueOf k).or ((named k).or ((Value.table layer).find? k.names))

theorem admits_said (hlayer : FileFits layer) (henvironment : EnvironmentSays environment named)
    (ho : CountsFit o) {k : Key} {v : Value} (h : said o named layer k = some v) :
    Admits k.kind v := by
  rcases Option.or_eq_some_iff.mp h with h | ⟨-, h⟩
  · exact admits_valueOf ho k v h
  · rcases Option.or_eq_some_iff.mp h with h | ⟨-, h⟩
    · obtain ⟨e, -, -, htold⟩ := henvironment.told k v h
      exact htold.admits
    · exact hlayer.admits k v h

/-- The table of all layers has for each setting what the highest layer says, or the default. -/
theorem resolve_said (hfile : path.elim (.ok []) (fileLayer tree) = .ok layer)
    (hlayer : FileFits layer) (henvironment : EnvironmentSays environment named)
    (ho : CountsFit o) :
    let root := resolve defaultLayer [layer, environmentLayer variableMark environment]
      (overrideLayer o)
    (∀ s ∈ sections, ∃ entries, root.entries.lookup s = some (.table entries)) ∧
      ∀ k : Key, root.find? k.names = (said o named layer k).or (standard.valueOf k) := by
  obtain ⟨hsections, hfind⟩ := resolve_layered (hlayer.orderly hfile) henvironment.dotted o
  refine ⟨hsections, fun k => ?_⟩
  rw [hfind, layered, ho.map_worded, henvironment.lookup_eq, said, Option.or_assoc,
    Option.or_assoc]

/-- Each setting by itself has the value that the highest layer says, or its default. An empty text
where one is optional means that there is none, also where a lower layer has another one. Where no
layer says anything, the configuration is the standard one. -/
theorem load_resolves_key_by_key (hfile : path.elim (.ok []) (fileLayer tree) = .ok layer)
    (hlayer : FileFits layer) (henvironment : EnvironmentSays environment named)
    (ho : CountsFit o) :
    ∃ c, load tree path o environment = .ok c ∧
      (∀ k, c.valueOf k = k.cleared ((said o named layer k).or (standard.valueOf k))) ∧
      ((∀ k, said o named layer k = none) → c = standard) := by
  obtain ⟨hsections, hvalues⟩ := resolve_said hfile hlayer henvironment ho
  have hadmits : ∀ k v, (said o named layer k).or (standard.valueOf k) = some v →
      Admits k.kind v := by
    intro k v hv
    rcases Option.or_eq_some_iff.mp hv with hv | ⟨-, hv⟩
    · exact admits_said hlayer henvironment ho hv
    · exact admits_standard k v hv
  have hrequired : ∀ k, k.isOptional = false →
      (said o named layer k).or (standard.valueOf k) ≠ none := by
    intro k hk hnone
    exact standard_ne_none k hk (Option.or_eq_none_iff.mp hnone).2
  obtain ⟨c, hc, hvalueOf⟩ := exists_ofSettings_eq hsections hvalues hadmits hrequired
  refine ⟨c, ?_, hvalueOf, fun hnothing => ?_⟩
  · rw [load_of_file hfile, hc, mapError_ok]
  · apply eq_of_valueOf
    intro k
    rw [hvalueOf, hnothing, Option.none_or, cleared_standard]

theorem load_resolves_key_by_key_three_layers :
    let text := "x=1\n[corpus]\noutput=\"a\"\npath=\"b\"".toList
    let tree : Files.Tree := ⟨[(⟨.above 0, ["c.toml"]⟩, .file (Text.Utf8.encode text) false)]⟩
    let o := { Overrides.none with threads := some 2 }
    let environment := [("SEMPAR__CORPUS__OUTPUT", ""), ("HOME", "7"),
      ("Sempar__Corpus__Batch_Size", "16")]
    ∃ c, load tree (some "c.toml") o environment = .ok c ∧
      c.valueOf .threads = some (.integer 2) ∧ c.valueOf .path = some (.text "b") ∧
      c.valueOf .batchSize = some (.integer 16) ∧ c.valueOf .output = none := by
  intro text tree o environment
  let layer : Layer :=
    [("x", .integer 1), ("corpus", .table [("output", .text "a"), ("path", .text "b")])]
  have htext : tree.readText "c.toml" = .ok text := rfl
  have hdocument : Toml.document? text = some
      [("x", .integer 1), ("corpus", .table [("output", .text "a"), ("path", .text "b")])] := by
    decide +kernel
  have hfile : fileLayer tree "c.toml" = .ok layer := by
    have hlocate : locateFile tree "c.toml" = some "c.toml" := by decide +kernel
    simp only [fileLayer, hlocate, htext]
    rw [hdocument]
    rfl
  have hlayer : FileFits layer := by
    refine ⟨by decide, fun s hs v hv => ?_, fun k v hv => ?_⟩
    · have hothers : ∀ s ∈ sections, s = "corpus" ∨ layer.lookup s = none := by decide
      rcases hothers s hs with rfl | hnone
      · cases hv
        exact ⟨_, rfl, by decide⟩
      · cases hnone.symm.trans hv
    · cases k <;> cases hv <;> constructor
  let named (k : Key) : Option Value :=
    if k = .output then some (.text "") else if k = .batchSize then some (.integer 16) else none
  have hnames : ∀ e ∈ environment, Marked e.1 → SameLetters e.1 (Key.variableName .output) ∨
      SameLetters e.1 (Key.variableName .batchSize) := by
    decide +kernel
  have hothers : ∀ k ∈ Key.all, k = .output ∨ k = .batchSize ∨
      ∀ e ∈ environment, ¬ SameLetters e.1 k.variableName := by
    decide +kernel
  have hempty : Says .text "" (.text "") := by
    refine .text (by decide +kernel) (by decide +kernel) (fun n hn => ?_) (fun x hx => ?_)
    · cases Number.readInt64_eq_ok_iff.mpr hn
    · cases hx
  have hsixteen : Says .count "16" (.integer 16) :=
    .count (n := 16) (.unsigned (@Number.DigitsSpell.digits [1, 6] (by decide) (by decide)))
      (by decide)
  have henvironment : EnvironmentSays environment named := by
    refine ⟨⟨by decide +kernel, fun e he hmarked => ?_⟩, fun k v hv => ?_, fun k hk => ?_⟩
    · rcases hnames e he hmarked with hname | hname
      · exact ⟨_, hname.trans (Key.sameLetters_variableOf _), Key.separate _, Key.spellable _⟩
      · exact ⟨_, hname.trans (Key.sameLetters_variableOf _), Key.separate _, Key.spellable _⟩
    · cases k <;> cases hv
      · exact ⟨(_, "16"), .tail _ (.tail _ (.head _)), by decide +kernel, hsixteen⟩
      · exact ⟨(_, ""), .head _, by decide +kernel, hempty⟩
    · rcases hothers k k.mem_all with rfl | rfl | hnone
      · cases hk
      · cases hk
      · exact hnone
  have ho : CountsFit o := ⟨by decide, by decide⟩
  have hpath : (some "c.toml").elim (.ok []) (fileLayer tree) = .ok layer := hfile
  obtain ⟨c, hc, hvalues, -⟩ := load_resolves_key_by_key hpath hlayer henvironment ho
  exact ⟨c, hc, hvalues .threads, hvalues .path, hvalues .batchSize, hvalues .output⟩

end Config

end CorpusAnnotator
