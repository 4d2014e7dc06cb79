import CorpusAnnotator.Proofs.Config.Layers
import CorpusAnnotator.Proofs.Number.Integer

/-! The variables that settings are read from. Each setting has one, named after the program and the
names that lead to the setting, with two low lines between them; it may be written in capitals or in
small letters. What the variable of a setting says is all that the environment says of it. -/
namespace CorpusAnnotator

/-! ## Names in any case -/

namespace Settings

variable {name other : String} {text : List Char} {path : List String}

/-- The same letters, of which those of ASCII may be capital in one name and small in the other. -/
def SameLetters (name other : String) : Prop :=
  name.toList.map Char.toLower = other.toList.map Char.toLower

instance (name other : String) : Decidable (SameLetters name other) :=
  inferInstanceAs (Decidable (_ = _))

theorem SameLetters.symm (h : SameLetters name other) : SameLetters other name := Eq.symm h

theorem SameLetters.trans {third : String} (h : SameLetters name other)
    (h' : SameLetters other third) : SameLetters name third := Eq.trans h h'

theorem sameLetters_iff : SameLetters name other ↔ small name = small other := by
  constructor
  · exact congrArg String.ofList
  · exact fun h => String.ofList_injective h

theorem toLower_of_plain (h : Plain name) : name.toList.map Char.toLower = name.toList := by
  rw [List.map_congr_left fun c hc => toLower_of_isPlainChar (h.2 c hc)]
  exact List.map_id _

/-! ## Low lines -/

/-- Names that two low lines keep apart: they have no two in a row themselves, and only the last
name ends in one. -/
structure Spellable (path : List String) : Prop where
  single : ∀ n ∈ path, ¬ ['_', '_'] <:+: n.toList
  apart : ∀ n ∈ path.dropLast, n.toList.getLast? ≠ some '_'

theorem Spellable.tail (h : Spellable (name :: path)) : Spellable path where
  single n hn := h.single n (List.mem_cons_of_mem name hn)
  apart n hn := by
    cases path with
    | nil => cases hn
    | cons next path => exact h.apart n (List.mem_cons_of_mem name hn)

theorem dotted_cons {c : Char} (h : ¬ ['_', '_'] <:+: c :: text) :
    dotted (c :: text) = c :: dotted text := by
  rw [dotted]
  rintro rest rfl rfl
  exact h (List.prefix_append ['_', '_'] rest).isInfix

/-- Where there are no two low lines in a row, nothing is put in their place. -/
theorem dotted_eq_self (h : ¬ ['_', '_'] <:+: text) : dotted text = text := by
  induction text with
  | nil => rfl
  | cons c text ih => rw [dotted_cons h, ih fun hrest => h (List.infix_cons hrest)]

/-- The first two low lines in a row become a point. -/
theorem dotted_append (h : ¬ ['_', '_'] <:+: text) (hlast : text.getLast? ≠ some '_')
    (rest : List Char) : dotted (text ++ (['_', '_'] ++ rest)) = text ++ '.' :: dotted rest := by
  induction text with
  | nil => rfl
  | cons c text ih =>
    have htext : ¬ ['_', '_'] <:+: text := fun hrest => h (List.infix_cons hrest)
    have hstep : dotted (c :: (text ++ (['_', '_'] ++ rest))) =
        c :: dotted (text ++ (['_', '_'] ++ rest)) := by
      rw [dotted]
      rintro behind rfl hbehind
      cases text with
      | nil => exact hlast rfl
      | cons d text =>
        obtain ⟨rfl, -⟩ := List.cons.inj hbehind
        exact h (List.prefix_append ['_', '_'] text).isInfix
    rw [List.cons_append, hstep]
    cases text with
    | nil => rfl
    | cons d text =>
      rw [ih htext (by simpa using hlast)]
      rfl

/-- Names with two low lines between them become the key of their path. -/
theorem dotted_names (h : Spellable (name :: path)) :
    dotted (name.toList ++ path.flatMap fun n => ['_', '_'] ++ n.toList) =
      spelled (name :: path) := by
  induction path generalizing name with
  | nil =>
    rw [List.flatMap_nil, List.append_nil, spelled]
    exact dotted_eq_self (h.single name List.mem_cons_self)
  | cons next path ih =>
    rw [List.flatMap_cons, List.append_assoc,
      dotted_append (h.single name List.mem_cons_self) (h.apart name List.mem_cons_self),
      ih h.tail, spelled]

end Settings

/-! ## The variables of settings -/

namespace Config

open Settings

variable {environment : List (String × String)} {name : String} {k k' : Key} {path : List String}
  {s : String} {n : Nat}

/-- The variable of a setting. -/
def Key.variableName : Key → String
  | .input => "SEMPAR__MODEL__INPUT"
  | .threads => "SEMPAR__MODEL__THREADS"
  | .inputName => "SEMPAR__MODEL__INPUT_NAME"
  | .outputName => "SEMPAR__MODEL__OUTPUT_NAME"
  | .operatorLibrary => "SEMPAR__MODEL__OP_LIBRARY"
  | .path => "SEMPAR__CORPUS__PATH"
  | .batchSize => "SEMPAR__CORPUS__BATCH_SIZE"
  | .output => "SEMPAR__CORPUS__OUTPUT"
  | .enabled => "SEMPAR__EVALUATION__ENABLED"
  | .gold => "SEMPAR__EVALUATION__GOLD"
  | .commons => "SEMPAR__EVALUATION__COMMONS"
  | .evaluator => "SEMPAR__EVALUATION__EVALUATOR"
  | .metric => "SEMPAR__EVALUATION__METRIC"
  | .strict => "SEMPAR__EVALUATION__STRICT"
  | .level => "SEMPAR__LOGGING__LEVEL"
  | .format => "SEMPAR__LOGGING__FORMAT"
  | .summary => "SEMPAR__SUMMARY"

/-- The variable that a path of names is written as, in small letters. -/
def variableOf (path : List String) : String :=
  String.ofList ("sempar".toList ++ path.flatMap fun n => ['_', '_'] ++ n.toList)

theorem Key.spellable (k : Key) : Spellable k.names := by
  cases k <;> exact ⟨by decide +kernel, by decide +kernel⟩

theorem Key.sameLetters_variableOf (k : Key) : SameLetters k.variableName (variableOf k.names) := by
  cases k <;> decide +kernel

/-- A variable of this program, as its name begins with the program's. -/
def Marked (name : String) : Prop :=
  "sempar__".toList <+: name.toList.map Char.toLower

instance (name : String) : Decidable (Marked name) :=
  inferInstanceAs (Decidable (_ <+: _))

theorem variableKey?_eq_none_iff : variableKey? variableMark name = none ↔ ¬ Marked name := by
  have htext : (small name).toList = name.toList.map Char.toLower := String.toList_ofList
  rw [variableKey?, htext, Marked, ← List.isPrefixOf_iff_prefix]
  simp [variableMark]

theorem toList_variableOf (path : List String) : (variableOf path).toList =
    "sempar".toList ++ path.flatMap fun n => ['_', '_'] ++ n.toList := String.toList_ofList

theorem toLower_variableOf (hplain : ∀ n ∈ path, Plain n) :
    (variableOf path).toList.map Char.toLower = (variableOf path).toList := by
  have hmark : "sempar".toList.map Char.toLower = "sempar".toList := by decide +kernel
  have hnames : (path.flatMap fun n => ['_', '_'] ++ n.toList).map Char.toLower =
      path.flatMap fun n => ['_', '_'] ++ n.toList := by
    rw [List.map_flatMap, List.flatMap_def, List.flatMap_def]
    refine congrArg List.flatten (List.map_congr_left fun n hn => ?_)
    rw [List.map_append, toLower_of_plain (hplain n hn)]
    rfl
  rw [toList_variableOf, List.map_append]
  exact congr (congrArg HAppend.hAppend hmark) hnames

/-- A variable that is written as a path sets what the path leads to. -/
theorem variableKey?_of_sameLetters (hplain : ∀ n ∈ path, Plain n) (hspellable : Spellable path)
    (hne : path ≠ []) (h : SameLetters name (variableOf path)) :
    variableKey? variableMark name = some (keyOf path) := by
  obtain ⟨first, rest, rfl⟩ := List.exists_cons_of_ne_nil hne
  have hmark : "sempar".toList ++ ['_', '_'] = variableMark.toList := by decide +kernel
  have htext : (small name).toList = variableMark.toList ++
      (first.toList ++ rest.flatMap fun n => ['_', '_'] ++ n.toList) := by
    have hsmall : (small name).toList = name.toList.map Char.toLower := String.toList_ofList
    have hnames : (variableOf (first :: rest)).toList = "sempar".toList ++ (['_', '_'] ++
        (first.toList ++ rest.flatMap fun n => ['_', '_'] ++ n.toList)) := by
      rw [toList_variableOf, List.flatMap_cons, List.append_assoc]
    calc (small name).toList
      _ = (variableOf (first :: rest)).toList.map Char.toLower := hsmall.trans h
      _ = (variableOf (first :: rest)).toList := toLower_variableOf hplain
      _ = ("sempar".toList ++ ['_', '_']) ++ _ := hnames.trans (List.append_assoc _ _ _).symm
      _ = _ := congrArg (· ++ _) hmark
  rw [variableKey?, htext]
  simp only [List.isPrefixOf_iff_prefix, List.prefix_append, if_true]
  rw [List.drop_left' String.length_toList, dotted_names hspellable, keyOf]

theorem Key.variableKey?_of_sameLetters (h : SameLetters name k.variableName) :
    variableKey? variableMark name = some k.key :=
  Config.variableKey?_of_sameLetters k.plain k.spellable k.separate.ne_nil
    (h.trans k.sameLetters_variableOf)

/-! ## Environments -/

/-- An environment whose variables of this program are each written as a path of names, that of a
setting or one beside all settings, and no two of which have the same letters. What else stands in
the environment does not matter. -/
structure NamesApart (environment : List (String × String)) : Prop where
  distinct : environment.Pairwise fun e e' => Marked e.1 → ¬ SameLetters e.1 e'.1
  written : ∀ e ∈ environment, Marked e.1 →
    ∃ path, SameLetters e.1 (variableOf path) ∧ Separate path ∧ Spellable path

theorem mem_environmentLayer {e : String × Value} :
    e ∈ environmentLayer variableMark environment ↔ ∃ e' ∈ environment,
      variableKey? variableMark e'.1 = some e.1 ∧ .ofText e'.2 = e.2 := by
  rw [environmentLayer, List.mem_filterMap]
  refine exists_congr fun e' => and_congr_right fun _ => ?_
  rw [Option.map_eq_some_iff]
  constructor
  · rintro ⟨key, hkey, rfl⟩
    exact ⟨hkey, rfl⟩
  · rintro ⟨hkey, htext⟩
    exact ⟨e.1, hkey, congrArg (e.1, ·) htext⟩

theorem marked_of_variableKey? {key : String} (h : variableKey? variableMark name = some key) :
    Marked name := by
  by_cases hmarked : Marked name
  · exact hmarked
  · cases (variableKey?_eq_none_iff.mpr hmarked).symm.trans h

/-- A variable that sets something is written as the path of what it sets. -/
theorem NamesApart.exists_path (h : NamesApart environment) {e : String × String}
    (he : e ∈ environment) {key : String} (hkey : variableKey? variableMark e.1 = some key) :
    ∃ path, key = keyOf path ∧ SameLetters e.1 (variableOf path) ∧ Separate path := by
  obtain ⟨path, hletters, hpath, hspellable⟩ := h.written e he (marked_of_variableKey? hkey)
  have hread := variableKey?_of_sameLetters hpath.plain hspellable hpath.ne_nil hletters
  exact ⟨path, Option.some.inj (hkey.symm.trans hread), hletters, hpath⟩

/-- Such variables make a layer of keys. -/
theorem NamesApart.dotted (h : NamesApart environment) :
    Dotted (environmentLayer variableMark environment) where
  distinct := by
    rw [List.nodup_iff_pairwise_ne, environmentLayer, List.pairwise_map, List.pairwise_filterMap]
    refine h.distinct.imp_of_mem fun {e e'} he he' hapart entry hentry entry' hentry' heq => ?_
    obtain ⟨key, hkey, rfl⟩ := Option.map_eq_some_iff.mp hentry
    obtain ⟨key', hkey', rfl⟩ := Option.map_eq_some_iff.mp hentry'
    obtain ⟨path, rfl, hletters, hpath⟩ := h.exists_path he hkey
    obtain ⟨path', rfl, hletters', hpath'⟩ := h.exists_path he' hkey'
    obtain rfl := keyOf_injective hpath.plain hpath'.plain hpath.ne_nil hpath'.ne_nil heq
    exact hapart (marked_of_variableKey? hkey) (hletters.trans hletters'.symm)
  keys e he := by
    obtain ⟨e', he', hkey, -⟩ := mem_environmentLayer.mp he
    obtain ⟨path, hpath, -, hseparate⟩ := h.exists_path he' hkey
    exact ⟨path, hpath, hseparate⟩
  single e he := by
    obtain ⟨e', -, -, htext⟩ := mem_environmentLayer.mp he
    exact htext ▸ Value.ofText_isTable e'.2

/-- The variable of a setting says its value. -/
theorem NamesApart.lookup_of_mem (h : NamesApart environment) {e : String × String}
    (he : e ∈ environment) (hname : SameLetters e.1 k.variableName) :
    (environmentLayer variableMark environment).lookup k.key = some (.ofText e.2) :=
  Entries.lookup_of_mem h.dotted.distinct
    (mem_environmentLayer.mpr ⟨e, he, Key.variableKey?_of_sameLetters hname, rfl⟩)

/-- Where a setting's variable is not there, no other says a value of the setting. -/
theorem NamesApart.lookup_eq_none (h : NamesApart environment)
    (hnone : ∀ e ∈ environment, ¬ SameLetters e.1 k.variableName) :
    (environmentLayer variableMark environment).lookup k.key = none := by
  rw [Entries.lookup_eq_none_iff]
  intro hmem
  obtain ⟨entry, hentry, hkey⟩ := List.mem_map.mp hmem
  obtain ⟨e, he, hread, -⟩ := mem_environmentLayer.mp hentry
  obtain ⟨path, hpath, hletters, hseparate⟩ := h.exists_path he hread
  obtain rfl := hseparate.key_eq_iff.mp (hkey.symm.trans hpath)
  exact hnone e he (hletters.trans k.sameLetters_variableOf.symm)

/-! ## Texts of variables -/

/-- How a variable says a value of a setting's kind. A text that is a boolean or a number by itself
says no text. -/
inductive Says : Kind → String → Value → Prop where
  | text {s : String} : ¬ SameLetters s "true" → ¬ SameLetters s "false" →
      (∀ n, ¬ Number.SpellsInt64 n s.toList) → (∀ x, Number.readFloat s.toList ≠ .ok x) →
      Says .text s (.text s)
  | count {s : String} {n : Nat} : Number.SpellsNat n s.toList → n ≤ Number.maxInt64 →
      Says .count s (.integer n)
  | yes {s : String} : SameLetters s "true" → Says .flag s (.flag true)
  | no {s : String} : SameLetters s "false" → Says .flag s (.flag false)

theorem Says.admits {kind : Kind} {v : Value} (h : Says kind s v) : Admits kind v := by
  cases h with
  | text => exact .text s
  | count _ hn => exact .count hn
  | yes => exact .flag true
  | no => exact .flag false

/-- A count is spelled with no letter. -/
theorem not_mem_of_spellsNat (h : Number.SpellsNat n s.toList) :
    'e' ∉ s.toList.map Char.toLower := by
  have hdigits {text : List Char} (h : Number.DigitsSpell n text) :
      'e' ∉ text.map Char.toLower := by
    cases h with
    | digits _ hdigits =>
      have hletters : ∀ d < 10, d.digitChar.toLower ≠ 'e' := by decide
      rw [List.map_map]
      intro hmem
      obtain ⟨d, hd, he⟩ := List.mem_map.mp hmem
      exact hletters d (hdigits d hd) he
  generalize s.toList = text at h
  cases h with
  | unsigned h => exact hdigits h
  | plus h =>
    intro hmem
    rcases List.mem_cons.mp hmem with he | hmem
    · exact absurd he (by decide)
    · exact hdigits h hmem

theorem small_eq_iff {word : String} (hword : small word = word) :
    String.ofList (Number.lower s.toList) = word ↔ SameLetters s word := by
  rw [sameLetters_iff, hword, small]

/-- What a variable says is what its text is taken for. -/
theorem Says.ofText_eq {kind : Kind} {v : Value} (h : Says kind s v) : Value.ofText s = v := by
  have hyes : small "true" = "true" := by decide +kernel
  have hno : small "false" = "false" := by decide +kernel
  simp only [Value.ofText, small_eq_iff hyes, small_eq_iff hno]
  cases h with
  | text htrue hfalse hwhole hnumber =>
    rw [if_neg htrue, if_neg hfalse]
    have hspells : ¬ ∃ n, Number.SpellsInt64 n s.toList := not_exists.mpr hwhole
    obtain ⟨e, he⟩ := Number.exists_readInt64_error_iff.mpr hspells
    rw [he]
    cases hread : Number.readFloat s.toList with
    | ok x => exact absurd hread (hnumber x)
    | error e => rfl
  | @count _ n hn hle =>
    have hread : Number.readInt64 s.toList = .ok n :=
      Number.readInt64_eq_ok_iff.mpr ⟨.nat hn, by omega, by rw [Number.maxInt64] at hle; omega⟩
    have hletters := not_mem_of_spellsNat hn
    have htrue : ¬ SameLetters s "true" := by
      intro h
      exact hletters (h ▸ by decide +kernel)
    have hfalse : ¬ SameLetters s "false" := by
      intro h
      exact hletters (h ▸ by decide +kernel)
    rw [if_neg htrue, if_neg hfalse, hread]
  | yes htrue => rw [if_pos htrue]
  | no hfalse =>
    have htrue : ¬ SameLetters s "true" :=
      fun h => absurd (h.symm.trans hfalse) (by decide +kernel)
    rw [if_neg htrue, if_pos hfalse]

/-- What the environment says of each setting: the value that its variable says, and nothing where
its variable is not there. -/
structure EnvironmentSays (environment : List (String × String)) (named : Key → Option Value) :
    Prop extends NamesApart environment where
  told : ∀ k v, named k = some v →
    ∃ e ∈ environment, SameLetters e.1 k.variableName ∧ Says k.kind e.2 v
  silent : ∀ k, named k = none → ∀ e ∈ environment, ¬ SameLetters e.1 k.variableName

/-- The layer of the environment has what the variables of settings say. -/
theorem EnvironmentSays.lookup_eq {named : Key → Option Value}
    (h : EnvironmentSays environment named) (k : Key) :
    (environmentLayer variableMark environment).lookup k.key = named k := by
  cases hk : named k with
  | none => exact h.toNamesApart.lookup_eq_none (h.silent k hk)
  | some v =>
    obtain ⟨e, he, hname, htold⟩ := h.told k v hk
    rw [h.toNamesApart.lookup_of_mem he hname, htold.ofText_eq]

end Config

end CorpusAnnotator
