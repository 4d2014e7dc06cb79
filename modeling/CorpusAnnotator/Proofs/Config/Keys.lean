import CorpusAnnotator.Config.Load
import CorpusAnnotator.Proofs.Results
import CorpusAnnotator.Proofs.Settings.Tables

/-! The settings that a configuration is made of: where each of them stands, what kind of value it
takes, and what a configuration and the command line say of it. A table that has a fitting value for
each setting describes the configuration with just these values. -/
namespace CorpusAnnotator

open Settings (Value)

namespace Config

inductive Key where
  | input
  | threads
  | inputName
  | outputName
  | operatorLibrary
  | path
  | batchSize
  | output
  | enabled
  | gold
  | commons
  | evaluator
  | metric
  | strict
  | level
  | format
  | summary
  deriving Repr, DecidableEq

inductive Kind where
  | text
  | count
  | flag
  deriving Repr, DecidableEq

namespace Key

/-- The names that lead to a setting. -/
def names : Key → List String
  | .input => ["model", "input"]
  | .threads => ["model", "threads"]
  | .inputName => ["model", "input_name"]
  | .outputName => ["model", "output_name"]
  | .operatorLibrary => ["model", "op_library"]
  | .path => ["corpus", "path"]
  | .batchSize => ["corpus", "batch_size"]
  | .output => ["corpus", "output"]
  | .enabled => ["evaluation", "enabled"]
  | .gold => ["evaluation", "gold"]
  | .commons => ["evaluation", "commons"]
  | .evaluator => ["evaluation", "evaluator"]
  | .metric => ["evaluation", "metric"]
  | .strict => ["evaluation", "strict"]
  | .level => ["logging", "level"]
  | .format => ["logging", "format"]
  | .summary => ["summary"]

def kind : Key → Kind
  | .threads | .batchSize => .count
  | .enabled | .strict => .flag
  | _ => .text

/-- Whether a configuration can do without it. -/
def isOptional : Key → Bool
  | .operatorLibrary | .output | .gold | .summary => true
  | _ => false

/-- What becomes of the value that was found for a setting: an empty text is none where that is
allowed. -/
def cleared (k : Key) : Option Value → Option Value
  | some (.text "") => if k.isOptional then none else some (.text "")
  | v => v

def all : List Key :=
  [.input, .threads, .inputName, .outputName, .operatorLibrary, .path, .batchSize, .output,
    .enabled, .gold, .commons, .evaluator, .metric, .strict, .level, .format, .summary]

theorem mem_all (k : Key) : k ∈ all := by
  cases k <;> decide

/-- All settings, one table after the other. -/
theorem forall_iff {p : Key → Prop} : (∀ k, p k) ↔
    (p .input ∧ p .threads ∧ p .inputName ∧ p .outputName ∧ p .operatorLibrary) ∧
    (p .path ∧ p .batchSize ∧ p .output) ∧
    (p .enabled ∧ p .gold ∧ p .commons ∧ p .evaluator ∧ p .metric ∧ p .strict) ∧
    (p .level ∧ p .format) ∧ p .summary := by
  constructor
  · intro h
    simp only [h, and_self]
  · rintro ⟨⟨_, _, _, _, _⟩, ⟨_, _, _⟩, ⟨_, _, _, _, _, _⟩, ⟨_, _⟩, _⟩ k
    cases k <;> assumption

end Key

/-- The tables that settings stand in. -/
def sections : List String := ["model", "corpus", "evaluation", "logging"]

/-- The values of a kind. Counts are at most what a signed word holds. -/
inductive Admits : Kind → Value → Prop where
  | text (s : String) : Admits .text (.text s)
  | count {n : Nat} : n ≤ Number.maxInt64 → Admits .count (.integer n)
  | flag (b : Bool) : Admits .flag (.flag b)

theorem Admits.isTable {kind : Kind} {v : Value} (h : Admits kind v) : v.isTable = false := by
  cases h <;> rfl

/-! ## What is said of a setting -/

def valueOf (c : Config) : Key → Option Value
  | .input => some (.text c.model.input)
  | .threads => some (.integer c.model.threads)
  | .inputName => some (.text c.model.inputName)
  | .outputName => some (.text c.model.outputName)
  | .operatorLibrary => c.model.operatorLibrary.map .text
  | .path => some (.text c.corpus.path)
  | .batchSize => some (.integer c.corpus.batchSize)
  | .output => c.corpus.output.map .text
  | .enabled => some (.flag c.evaluation.enabled)
  | .gold => c.evaluation.gold.map .text
  | .commons => some (.text c.evaluation.commons)
  | .evaluator => some (.text c.evaluation.evaluator)
  | .metric => some (.text c.evaluation.metric)
  | .strict => some (.flag c.evaluation.strict)
  | .level => some (.text c.logging.level)
  | .format => some (.text c.logging.format)
  | .summary => c.summary.map .text

theorem map_text_inj {a b : Option String} : a.map Value.text = b.map Value.text ↔ a = b := by
  cases a <;> cases b <;> simp

/-- A configuration is nothing but the values of its settings. -/
theorem eq_of_valueOf {c c' : Config} (h : ∀ k, c.valueOf k = c'.valueOf k) : c = c' := by
  obtain ⟨⟨_, _, _, _, _⟩, ⟨_, _, _⟩, ⟨_, _, _, _, _, _⟩, ⟨_, _⟩, _⟩ := c
  obtain ⟨⟨_, _, _, _, _⟩, ⟨_, _, _⟩, ⟨_, _, _, _, _, _⟩, ⟨_, _⟩, _⟩ := c'
  simp only [Key.forall_iff, valueOf, Option.some.injEq, Value.text.injEq,
    Value.integer.injEq, Value.flag.injEq, map_text_inj, Int.ofNat_inj] at h
  simp [h]

end Config

/-- What the command line says of a setting; a switch can only be turned on. -/
def Overrides.valueOf (o : Overrides) : Config.Key → Option Value
  | .input => o.input.map .text
  | .threads => o.threads.map fun (n : Nat) => .integer n
  | .operatorLibrary => o.operatorLibrary.map .text
  | .path => o.corpus.map .text
  | .batchSize => o.batchSize.map fun (n : Nat) => .integer n
  | .output => o.output.map .text
  | .enabled => if o.evaluate then some (.flag true) else Option.none
  | .gold => o.gold.map .text
  | .commons => o.commons.map .text
  | .evaluator => o.evaluator.map .text
  | .strict => if o.strict then some (.flag true) else Option.none
  | .summary => o.summary.map .text
  | .inputName | .outputName | .metric | .level | .format => Option.none

namespace Config

/-! ## Taking values -/

/-- A value in its own kind, where it can be turned into one. -/
def Kind.convert : Kind → Value → Option Value
  | .text, v => v.toText?.map .text
  | .count, v => v.toCount?.map fun (n : Nat) => .integer n
  | .flag, v => v.toFlag?.map .flag

/-- What a setting makes of the value that is found for it: a value of its kind, or nothing where
there may be none. -/
def Key.read (k : Key) (found : Option Value) : Option (Option Value) :=
  match found.getD .nothing with
  | .nothing => if k.isOptional then some none else none
  | v => (k.kind.convert v).map some

section

variable {k : Key} {found : Option Value} {v : Value} {s : String} {n : Nat} {b : Bool}

theorem Kind.convert_nothing (kind : Kind) : kind.convert .nothing = none := by
  cases kind <;> rfl

theorem Kind.convert_text : Kind.text.convert v = some (.text s) ↔ v.toText? = some s := by
  simp [Kind.convert]

theorem Kind.convert_count : Kind.count.convert v = some (.integer n) ↔ v.toCount? = some n := by
  simp only [Kind.convert, Option.map_eq_some_iff, Value.integer.injEq, Int.ofNat_inj,
    exists_eq_right]

theorem Kind.convert_flag : Kind.flag.convert v = some (.flag b) ↔ v.toFlag? = some b := by
  simp [Kind.convert]

theorem Key.read_required {w : Value} (hk : k.isOptional = false) :
    k.read found = some (some w) ↔ ∃ v, found = some v ∧ k.kind.convert v = some w := by
  unfold Key.read
  cases found with
  | none => simp [hk]
  | some v =>
    cases v with
    | nothing => simp [hk, Kind.convert_nothing]
    | _ => simp

theorem Key.read_optional {text : Option String} (hk : k.isOptional = true) :
    k.read found = some (text.map .text) ↔
      textOrNothing? (found.getD .nothing) = some text := by
  have hkind : k.kind = .text := by cases k <;> first | rfl | cases hk
  unfold Key.read textOrNothing?
  rw [hk, hkind]
  cases found.getD .nothing with
  | nothing => cases text <;> simp
  | _ => cases text <;> simp [Kind.convert]

end

/-! ## Reading sections -/

namespace Reading

variable {α β : Type} {r : Reading α} {b : β}

theorem map_eq_value_iff {f : α → β} : r.map f = .value b ↔ ∃ a, r = .value a ∧ f a = b := by
  cases r <;> simp [map]

theorem app_eq_value_iff {f : Reading (α → β)} :
    f.app r = .value b ↔ ∃ g, f = .value g ∧ ∃ a, r = .value a ∧ g a = b := by
  cases f <;> cases r <;> simp [app]

theorem toExcept_eq_ok_iff {a : α} : r.toExcept = .ok a ↔ r = .value a := by
  cases r <;> simp [toExcept]

end Reading

variable {root : Value} {c : Config} {entries : List (String × Value)} {name key : String}
  {index : Nat} {k : Key}

theorem of_table (h : root.entries.lookup name = some (.table entries)) :
    Section.of name root = .ok (.named name entries) := by
  rw [Section.of, h]

theorem find?_of_table (h : root.entries.lookup name = some (.table entries)) (key : String) :
    root.find? [name, key] = entries.lookup key := by
  show (root.entries.lookup name).bind _ = _
  rw [h]
  exact Option.bind_fun_some _

theorem required_eq_value_iff {α : Type} {convert : Value → Option α} {a : α} :
    (Section.named name entries).required convert index key = .value a ↔
      ∃ v, entries.lookup key = some v ∧ convert v = some a := by
  simp only [Section.required, Section.find?]
  cases entries.lookup key with
  | none => simp
  | some v => cases hv : convert v <;> simp [hv]

theorem optional_eq_value_iff {text : Option String} :
    (Section.named name entries).optional index key = .value text ↔
      textOrNothing? ((entries.lookup key).getD .nothing) = some text := by
  simp only [Section.optional, Section.find?]
  cases entries.lookup key with
  | none => simp [textOrNothing?]
  | some v => cases hv : textOrNothing? v <;> simp [hv]

section

variable (h : root.entries.lookup name = some (.table entries)) (hnames : k.names = [name, key])

include h hnames

theorem required_text_iff {s : String} (hkind : k.kind = .text) (hk : k.isOptional = false) :
    (Section.named name entries).required Value.toText? index key = .value s ↔
      k.read (root.find? k.names) = some (some (.text s)) := by
  simp only [required_eq_value_iff, k.read_required hk, hnames, find?_of_table h, hkind,
    Kind.convert_text]

theorem required_count_iff {n : Nat} (hkind : k.kind = .count) (hk : k.isOptional = false) :
    (Section.named name entries).required Value.toCount? index key = .value n ↔
      k.read (root.find? k.names) = some (some (.integer n)) := by
  simp only [required_eq_value_iff, k.read_required hk, hnames, find?_of_table h, hkind,
    Kind.convert_count]

theorem required_flag_iff {b : Bool} (hkind : k.kind = .flag) (hk : k.isOptional = false) :
    (Section.named name entries).required Value.toFlag? index key = .value b ↔
      k.read (root.find? k.names) = some (some (.flag b)) := by
  simp only [required_eq_value_iff, k.read_required hk, hnames, find?_of_table h, hkind,
    Kind.convert_flag]

theorem optional_text_iff {text : Option String} (hk : k.isOptional = true) :
    (Section.named name entries).optional index key = .value text ↔
      k.read (root.find? k.names) = some (text.map .text) := by
  rw [optional_eq_value_iff, k.read_optional hk, hnames, find?_of_table h]

end

/-- Each section is read value by value. -/
theorem modelOf_eq_value_iff {s : Section} {m : ModelConfig} : modelOf s = .value m ↔
    s.required Value.toText? 0 "input" = .value m.input ∧
      s.required Value.toCount? 1 "threads" = .value m.threads ∧
      s.required Value.toText? 2 "input_name" = .value m.inputName ∧
      s.required Value.toText? 3 "output_name" = .value m.outputName ∧
      s.optional 4 "op_library" = .value m.operatorLibrary := by
  simp only [modelOf, Reading.app_eq_value_iff, Reading.map_eq_value_iff]
  constructor
  · rintro ⟨_, ⟨_, ⟨_, ⟨_, ⟨_, hinput, rfl⟩, _, hthreads, rfl⟩, _, hinputName, rfl⟩,
      _, houtputName, rfl⟩, _, hlibrary, rfl⟩
    exact ⟨hinput, hthreads, hinputName, houtputName, hlibrary⟩
  · rintro ⟨hinput, hthreads, hinputName, houtputName, hlibrary⟩
    exact ⟨_, ⟨_, ⟨_, ⟨_, ⟨_, hinput, rfl⟩, _, hthreads, rfl⟩, _, hinputName, rfl⟩,
      _, houtputName, rfl⟩, _, hlibrary, rfl⟩

theorem corpusOf_eq_value_iff {s : Section} {m : CorpusConfig} : corpusOf s = .value m ↔
    s.required Value.toText? 0 "path" = .value m.path ∧
      s.required Value.toCount? 1 "batch_size" = .value m.batchSize ∧
      s.optional 2 "output" = .value m.output := by
  simp only [corpusOf, Reading.app_eq_value_iff, Reading.map_eq_value_iff]
  constructor
  · rintro ⟨_, ⟨_, ⟨_, hpath, rfl⟩, _, hbatchSize, rfl⟩, _, houtput, rfl⟩
    exact ⟨hpath, hbatchSize, houtput⟩
  · rintro ⟨hpath, hbatchSize, houtput⟩
    exact ⟨_, ⟨_, ⟨_, hpath, rfl⟩, _, hbatchSize, rfl⟩, _, houtput, rfl⟩

theorem evaluationOf_eq_value_iff {s : Section} {m : EvaluationConfig} :
    evaluationOf s = .value m ↔
      s.required Value.toFlag? 0 "enabled" = .value m.enabled ∧
        s.optional 1 "gold" = .value m.gold ∧
        s.required Value.toText? 2 "commons" = .value m.commons ∧
        s.required Value.toText? 3 "evaluator" = .value m.evaluator ∧
        s.required Value.toText? 4 "metric" = .value m.metric ∧
        s.required Value.toFlag? 5 "strict" = .value m.strict := by
  simp only [evaluationOf, Reading.app_eq_value_iff, Reading.map_eq_value_iff]
  constructor
  · rintro ⟨_, ⟨_, ⟨_, ⟨_, ⟨_, ⟨_, henabled, rfl⟩, _, hgold, rfl⟩, _, hcommons, rfl⟩,
      _, hevaluator, rfl⟩, _, hmetric, rfl⟩, _, hstrict, rfl⟩
    exact ⟨henabled, hgold, hcommons, hevaluator, hmetric, hstrict⟩
  · rintro ⟨henabled, hgold, hcommons, hevaluator, hmetric, hstrict⟩
    exact ⟨_, ⟨_, ⟨_, ⟨_, ⟨_, ⟨_, henabled, rfl⟩, _, hgold, rfl⟩, _, hcommons, rfl⟩,
      _, hevaluator, rfl⟩, _, hmetric, rfl⟩, _, hstrict, rfl⟩

theorem loggingOf_eq_value_iff {s : Section} {m : LoggingConfig} : loggingOf s = .value m ↔
    s.required Value.toText? 0 "level" = .value m.level ∧
      s.required Value.toText? 1 "format" = .value m.format := by
  simp only [loggingOf, Reading.app_eq_value_iff, Reading.map_eq_value_iff]
  constructor
  · rintro ⟨_, ⟨_, hlevel, rfl⟩, _, hformat, rfl⟩
    exact ⟨hlevel, hformat⟩
  · rintro ⟨hlevel, hformat⟩
    exact ⟨_, ⟨_, hlevel, rfl⟩, _, hformat, rfl⟩

/-- A configuration is made of what is read from its sections. -/
theorem ofSettings_eq_ok_iff_sections : ofSettings root = .ok c ↔ ∃ raw : Config,
    (∃ s, Section.of "model" root = .ok s ∧ modelOf s = .value raw.model) ∧
    (∃ s, Section.of "corpus" root = .ok s ∧ corpusOf s = .value raw.corpus) ∧
    (∃ s, Section.of "evaluation" root = .ok s ∧ evaluationOf s = .value raw.evaluation) ∧
    (∃ s, Section.of "logging" root = .ok s ∧ loggingOf s = .value raw.logging) ∧
    textOrNothing? ((root.entries.lookup "summary").getD .nothing) = some raw.summary ∧
    normalized raw = c := by
  simp only [ofSettings, Results.bind_eq_ok_iff, Reading.toExcept_eq_ok_iff]
  constructor
  · rintro ⟨ms, hms, model, hmodel, cs, hcs, corpus, hcorpus, es, hes, evaluation, hevaluation,
      ls, hls, logging, hlogging, h⟩
    split at h
    · cases h
    · next summary hsummary =>
      exact ⟨⟨model, corpus, evaluation, logging, summary⟩, ⟨ms, hms, hmodel⟩, ⟨cs, hcs, hcorpus⟩,
        ⟨es, hes, hevaluation⟩, ⟨ls, hls, hlogging⟩, hsummary, Except.ok.inj h⟩
  · rintro ⟨raw, ⟨ms, hms, hmodel⟩, ⟨cs, hcs, hcorpus⟩, ⟨es, hes, hevaluation⟩,
      ⟨ls, hls, hlogging⟩, hsummary, rfl⟩
    refine ⟨ms, hms, _, hmodel, cs, hcs, _, hcorpus, es, hes, _, hevaluation, ls, hls, _, hlogging,
      ?_⟩
    rw [hsummary]
    rfl

/-- A table with all sections describes a configuration exactly if each setting takes what is found
for it, and then it is the one with these values, but for empty texts where there may be none. -/
theorem ofSettings_eq_ok_iff
    (hsections : ∀ s ∈ sections, ∃ entries, root.entries.lookup s = some (.table entries)) :
    ofSettings root = .ok c ↔
      ∃ raw : Config, (∀ k : Key, k.read (root.find? k.names) = some (raw.valueOf k)) ∧
        normalized raw = c := by
  obtain ⟨model, hmodel⟩ := hsections "model" (by decide)
  obtain ⟨corpus, hcorpus⟩ := hsections "corpus" (by decide)
  obtain ⟨evaluation, hevaluation⟩ := hsections "evaluation" (by decide)
  obtain ⟨logging, hlogging⟩ := hsections "logging" (by decide)
  have hsummary : root.find? (Key.names .summary) = root.entries.lookup "summary" :=
    Option.bind_fun_some _
  have hread (text : Option String) :
      Key.read .summary (root.entries.lookup "summary") = some (text.map .text) ↔
        textOrNothing? ((root.entries.lookup "summary").getD .nothing) = some text :=
    Key.read_optional rfl
  -- what is read from the sections is what the settings in them take
  simp only [ofSettings_eq_ok_iff_sections, of_table hmodel, of_table hcorpus, of_table hevaluation,
    of_table hlogging, Except.ok.injEq, exists_eq_left', modelOf_eq_value_iff,
    corpusOf_eq_value_iff, evaluationOf_eq_value_iff, loggingOf_eq_value_iff,
    required_text_iff hmodel (k := .input) rfl rfl rfl,
    required_count_iff hmodel (k := .threads) rfl rfl rfl,
    required_text_iff hmodel (k := .inputName) rfl rfl rfl,
    required_text_iff hmodel (k := .outputName) rfl rfl rfl,
    optional_text_iff hmodel (k := .operatorLibrary) rfl rfl,
    required_text_iff hcorpus (k := .path) rfl rfl rfl,
    required_count_iff hcorpus (k := .batchSize) rfl rfl rfl,
    optional_text_iff hcorpus (k := .output) rfl rfl,
    required_flag_iff hevaluation (k := .enabled) rfl rfl rfl,
    optional_text_iff hevaluation (k := .gold) rfl rfl,
    required_text_iff hevaluation (k := .commons) rfl rfl rfl,
    required_text_iff hevaluation (k := .evaluator) rfl rfl rfl,
    required_text_iff hevaluation (k := .metric) rfl rfl rfl,
    required_flag_iff hevaluation (k := .strict) rfl rfl rfl,
    required_text_iff hlogging (k := .level) rfl rfl rfl,
    required_text_iff hlogging (k := .format) rfl rfl rfl, Key.forall_iff, valueOf,
    hsummary, hread, and_assoc]

theorem toCount?_integer (n : Nat) : Value.toCount? (.integer n) = some n := by
  simp [Value.toCount?]

theorem textOrNothing?_getD (s : Option String) :
    textOrNothing? ((s.map Value.text).getD .nothing) = some s := by
  cases s <;> rfl

/-- A value that a configuration has is taken as it is. -/
theorem read_valueOf (c : Config) (k : Key) : k.read (c.valueOf k) = some (c.valueOf k) := by
  cases k with
  | threads | batchSize =>
    exact (Key.read_required rfl).mpr ⟨_, rfl, Kind.convert_count.mpr (toCount?_integer _)⟩
  | operatorLibrary | output | gold | summary =>
    exact (Key.read_optional rfl).mpr (textOrNothing?_getD _)
  | _ => exact (Key.read_required rfl).mpr ⟨_, rfl, rfl⟩

/-- A table that has the values of a configuration describes it. -/
theorem ofSettings_eq
    (hsections : ∀ s ∈ sections, ∃ entries, root.entries.lookup s = some (.table entries))
    (h : ∀ k, root.find? k.names = c.valueOf k) : ofSettings root = .ok (normalized c) := by
  refine (ofSettings_eq_ok_iff hsections).mpr ⟨c, fun k => ?_, rfl⟩
  rw [h, read_valueOf]

/-! ## Configurations with given values -/

theorem cleared_of_required {k : Key} (hk : k.isOptional = false) (v : Option Value) :
    k.cleared v = v := by
  unfold Key.cleared
  split
  · rw [hk]
    rfl
  · rfl

theorem cleared_of_optional {k : Key} (hk : k.isOptional = true) (s : Option String) :
    k.cleared (s.map .text) = (clearEmpty s).map .text := by
  cases s with
  | none => rfl
  | some s =>
    by_cases hs : s = ""
    · subst hs
      simp [Key.cleared, clearEmpty, hk]
    · simp [Key.cleared, clearEmpty, hs]

theorem valueOf_normalized (c : Config) (k : Key) :
    (normalized c).valueOf k = k.cleared (c.valueOf k) := by
  cases hk : k.isOptional with
  | false =>
    rw [cleared_of_required hk]
    cases k <;> first | rfl | cases hk
  | true =>
    cases k <;> first | exact (cleared_of_optional hk _).symm | cases hk

/-- Fitting values for all settings but optional ones are those of a configuration. -/
theorem exists_valueOf_eq {g : Key → Option Value}
    (hadmits : ∀ k v, g k = some v → Admits k.kind v)
    (hrequired : ∀ k, k.isOptional = false → g k ≠ none) :
    ∃ c : Config, ∀ k, c.valueOf k = g k := by
  have hfits : ∀ k, k.isOptional = false → ∃ v, g k = some v ∧ Admits k.kind v := by
    intro k hk
    obtain ⟨v, hv⟩ := Option.ne_none_iff_exists'.mp (hrequired k hk)
    exact ⟨v, hv, hadmits k v hv⟩
  have htext : ∀ k, k.kind = .text → k.isOptional = false → ∃ s, g k = some (.text s) := by
    intro k hkind hk
    obtain ⟨v, hv, hfit⟩ := hfits k hk
    cases hkind ▸ hfit with
    | text s => exact ⟨s, hv⟩
  have hcount : ∀ k, k.kind = .count → k.isOptional = false →
      ∃ n : Nat, g k = some (.integer n) := by
    intro k hkind hk
    obtain ⟨v, hv, hfit⟩ := hfits k hk
    cases hkind ▸ hfit with
    | @count n _ => exact ⟨n, hv⟩
  have hflag : ∀ k, k.kind = .flag → k.isOptional = false → ∃ b, g k = some (.flag b) := by
    intro k hkind hk
    obtain ⟨v, hv, hfit⟩ := hfits k hk
    cases hkind ▸ hfit with
    | flag b => exact ⟨b, hv⟩
  have hoptional : ∀ k, k.kind = .text → ∃ s : Option String, g k = s.map .text := by
    intro k hkind
    cases hv : g k with
    | none => exact ⟨none, rfl⟩
    | some v =>
      cases hkind ▸ hadmits k v hv with
      | text s => exact ⟨some s, rfl⟩
  obtain ⟨input, hinput⟩ := htext .input rfl rfl
  obtain ⟨threads, hthreads⟩ := hcount .threads rfl rfl
  obtain ⟨inputName, hinputName⟩ := htext .inputName rfl rfl
  obtain ⟨outputName, houtputName⟩ := htext .outputName rfl rfl
  obtain ⟨library, hlibrary⟩ := hoptional .operatorLibrary rfl
  obtain ⟨path, hpath⟩ := htext .path rfl rfl
  obtain ⟨batchSize, hbatchSize⟩ := hcount .batchSize rfl rfl
  obtain ⟨output, houtput⟩ := hoptional .output rfl
  obtain ⟨enabled, henabled⟩ := hflag .enabled rfl rfl
  obtain ⟨gold, hgold⟩ := hoptional .gold rfl
  obtain ⟨commons, hcommons⟩ := htext .commons rfl rfl
  obtain ⟨evaluator, hevaluator⟩ := htext .evaluator rfl rfl
  obtain ⟨metric, hmetric⟩ := htext .metric rfl rfl
  obtain ⟨strict, hstrict⟩ := hflag .strict rfl rfl
  obtain ⟨level, hlevel⟩ := htext .level rfl rfl
  obtain ⟨format, hformat⟩ := htext .format rfl rfl
  obtain ⟨summary, hsummary⟩ := hoptional .summary rfl
  refine ⟨⟨⟨input, threads, inputName, outputName, library⟩, ⟨path, batchSize, output⟩,
    ⟨enabled, gold, commons, evaluator, metric, strict⟩, ⟨level, format⟩, summary⟩, fun k => ?_⟩
  cases k <;> simp only [valueOf, *]

/-- A table that has a fitting value for each setting that has to be there describes a configuration
with these values, but for empty texts where there may be none. -/
theorem exists_ofSettings_eq {g : Key → Option Value}
    (hsections : ∀ s ∈ sections, ∃ entries, root.entries.lookup s = some (.table entries))
    (hvalues : ∀ k, root.find? k.names = g k)
    (hadmits : ∀ k v, g k = some v → Admits k.kind v)
    (hrequired : ∀ k, k.isOptional = false → g k ≠ none) :
    ∃ c, ofSettings root = .ok c ∧ ∀ k, c.valueOf k = k.cleared (g k) := by
  obtain ⟨c, hc⟩ := exists_valueOf_eq hadmits hrequired
  refine ⟨normalized c, ofSettings_eq hsections fun k => (hvalues k).trans (hc k).symm, fun k => ?_⟩
  rw [valueOf_normalized, hc]

end Config

end CorpusAnnotator
