import CorpusAnnotator.Proofs.Config.Resolution

/-! Texts from the environment. A variable sets a text as the command line does, but not always the
text that it has: one that reads as a boolean or as a number is taken for it and printed anew. -/
namespace CorpusAnnotator

open Config (Key)
open Settings

/-! ## Texts of the command line -/

namespace Config

/-- Whether a setting is a text that the command line can give. -/
def Key.isFlagged : Key → Bool
  | .input | .operatorLibrary | .path | .output | .gold | .commons | .evaluator | .summary => true
  | _ => false

theorem Key.kind_of_isFlagged {k : Key} (hk : k.isFlagged = true) : k.kind = .text := by
  cases k <;> cases hk <;> rfl

/-- A configuration with another text for one of these settings. -/
def say (c : Config) (s : String) : Key → Config
  | .input => { c with model := { c.model with input := s } }
  | .operatorLibrary => { c with model := { c.model with operatorLibrary := some s } }
  | .path => { c with corpus := { c.corpus with path := s } }
  | .output => { c with corpus := { c.corpus with output := some s } }
  | .gold => { c with evaluation := { c.evaluation with gold := some s } }
  | .commons => { c with evaluation := { c.evaluation with commons := s } }
  | .evaluator => { c with evaluation := { c.evaluation with evaluator := s } }
  | .summary => { c with summary := some s }
  | _ => c

theorem valueOf_say {k : Key} (hk : k.isFlagged = true) (c : Config) (s : String) (k' : Key) :
    (c.say s k).valueOf k' = if k' = k then some (.text s) else c.valueOf k' := by
  cases k <;> cases hk <;> cases k' <;> rfl

end Config

/-- A command line that gives another text for one of these settings. -/
def Overrides.say (o : Overrides) (s : String) : Key → Overrides
  | .input => { o with input := some s }
  | .operatorLibrary => { o with operatorLibrary := some s }
  | .path => { o with corpus := some s }
  | .output => { o with output := some s }
  | .gold => { o with gold := some s }
  | .commons => { o with commons := some s }
  | .evaluator => { o with evaluator := some s }
  | .summary => { o with summary := some s }
  | _ => o

theorem Overrides.valueOf_say {k : Key} (hk : k.isFlagged = true) (o : Overrides) (s : String)
    (k' : Key) :
    (o.say s k).valueOf k' = if k' = k then some (.text s) else o.valueOf k' := by
  cases k <;> cases hk <;> cases k' <;> rfl

namespace Config

variable {layer : Layer} {tree : Files.Tree} {path : Option String} {o : Overrides}
  {environment : List (String × String)} {name s v : String} {k : Key} {c : Config}

/-! ## Texts of variables -/

/-- What becomes of a text that is first taken for what it stands for. -/
def reprinted (v : String) : String :=
  ((Value.ofText v).toText?).getD v

theorem toText?_ofText (v : String) : (Value.ofText v).toText? = some (reprinted v) := by
  have hsome : ((Value.ofText v).toText?).isSome = true := by
    simp only [Value.ofText]
    split
    · rfl
    · split
      · rfl
      · split
        · rfl
        · split <;> rfl
  obtain ⟨s, hs⟩ := Option.isSome_iff_exists.mp hsome
  rw [reprinted, hs, Option.getD_some]

theorem reprinted_of_text (h : Value.ofText v = .text v) : reprinted v = v := by
  rw [reprinted, h]
  rfl

theorem environmentLayer_of_variable (before after : List (String × String))
    (hname : variableKey? variableMark name = some k.key) (v : String) :
    environmentLayer variableMark (before ++ (name, v) :: after) =
      environmentLayer variableMark before ++
        (k.key, .ofText v) :: environmentLayer variableMark after := by
  unfold environmentLayer
  rw [List.filterMap_append, List.filterMap_cons]
  simp only [hname, Option.map_some]

/-! ## One text -/

/-- A setting for texts takes the text that the value stands for which is found. -/
theorem Key.read_text (hkind : k.kind = .text) {found : Value} (h : found.toText? = some s) :
    k.read (some found) = some (some (.text s)) := by
  cases found with
  | nothing => cases h
  | _ => simp only [Key.read, Option.getD_some, hkind, Kind.convert, h, Option.map_some]

theorem Key.cleared_text (k : Key) (s : String) : k.cleared (some (.text s)) =
    if k.isOptional = true ∧ s = "" then none else some (.text s) := by
  by_cases hs : s = ""
  · subst hs
    simp [Key.cleared]
  · simp [Key.cleared, hs]

/-- No two texts are the same to a setting. -/
theorem Key.cleared_text_inj {s' : String}
    (h : k.cleared (some (.text s)) = k.cleared (some (.text s'))) : s = s' := by
  rw [k.cleared_text, k.cleared_text] at h
  split at h
  · next hs =>
    split at h
    · next hs' => rw [hs.2, hs'.2]
    · cases h
  · split at h
    · cases h
    · cases h
      rfl

/-- Where the layers say a text of one setting, a configuration is loaded exactly if all others take
what the layers say of them, and that one has this text. -/
theorem load_eq_ok_iff_of_text (hkind : k.kind = .text) {found : Value}
    (hfound : found.toText? = some s) {rest : Key → Option Value}
    (hlayered : ∀ k', layered o environment layer k' = if k' = k then some found else rest k')
    (hfile : path.elim (.ok []) (fileLayer tree) = .ok layer) (hlayer : Orderly (.table layer))
    (henvironment : Dotted (environmentLayer variableMark environment)) :
    load tree path o environment = .ok c ↔
      ∃ raw : Config, (∀ k', k' ≠ k → k'.read (rest k') = some (raw.valueOf k')) ∧
        raw.valueOf k = some (.text s) ∧ normalized raw = c := by
  rw [load_eq_ok_iff hfile hlayer henvironment]
  constructor
  · rintro ⟨raw, hraw, rfl⟩
    refine ⟨raw, fun k' hk' => ?_, ?_, rfl⟩
    · rw [← hraw, hlayered, if_neg hk']
    · have hk := hraw k
      rw [hlayered, if_pos rfl, k.read_text hkind hfound] at hk
      exact (Option.some.inj hk).symm
  · rintro ⟨raw, hrest, hk, rfl⟩
    refine ⟨raw, fun k' => ?_, rfl⟩
    rw [hlayered]
    by_cases hk' : k' = k
    · subst hk'
      rw [if_pos rfl, k'.read_text hkind hfound, hk]
    · rw [if_neg hk', hrest k' hk']

section

variable (before after : List (String × String))
  (hname : variableKey? variableMark name = some k.key)
  (henvironment : Dotted (environmentLayer variableMark (before ++ (name, v) :: after)))

include hname henvironment

theorem dotted_without_variable :
    Dotted (environmentLayer variableMark (before ++ after)) := by
  rw [environmentLayer_of_variable before after hname] at henvironment
  refine henvironment.sublist ?_
  rw [environmentLayer, List.filterMap_append]
  exact (List.sublist_cons_self _ _).append_left _

theorem lookup_environmentLayer (other : String) :
    (environmentLayer variableMark (before ++ (name, v) :: after)).lookup other =
      if other = k.key then some (.ofText v)
      else (environmentLayer variableMark (before ++ after)).lookup other := by
  have hdistinct := henvironment.distinct
  rw [environmentLayer_of_variable before after hname] at hdistinct ⊢
  rw [Entries.lookup_append_cons hdistinct, environmentLayer, environmentLayer, environmentLayer,
    List.filterMap_append]

/-- The variable says its text of the setting, where the command line does not. -/
theorem layered_of_variable (ho : o.valueOf k = none) (layer : Layer) (k' : Key) :
    layered o (before ++ (name, v) :: after) layer k' =
      if k' = k then some (.ofText v) else layered o (before ++ after) layer k' := by
  rw [layered, layered, lookup_environmentLayer before after hname henvironment]
  by_cases hk' : k' = k
  · subst hk'
    rw [if_pos rfl, if_pos rfl, ho]
    rfl
  · have hkey : k'.key ≠ k.key := fun hkey => hk' (Key.key_injective hkey)
    rw [if_neg hkey, if_neg hk']

end

theorem layered_say (hk : k.isFlagged = true) (o : Overrides) (s : String) (layer : Layer)
    (k' : Key) : layered (o.say s k) environment layer k' =
      if k' = k then some (.text s) else layered o environment layer k' := by
  rw [layered, o.valueOf_say hk]
  by_cases hk' : k' = k
  · rw [if_pos hk', if_pos hk']
    rfl
  · rw [if_neg hk', if_neg hk']
    rfl

/-! ## Over the defaults -/

theorem layered_nothing (k : Key) : layered .none [] [] k = standard.valueOf k := by
  cases k <;> rfl

theorem load_alone (hk : k.isFlagged = true) {found : Value} (hfound : found.toText? = some s)
    (hlayered : ∀ k', layered o environment [] k' =
      if k' = k then some found else standard.valueOf k')
    (henvironment : Dotted (environmentLayer variableMark environment)) :
    load tree none o environment = .ok (normalized (standard.say s k)) := by
  refine (load_eq_ok_iff_of_text (Key.kind_of_isFlagged hk) hfound hlayered rfl .empty
    henvironment).mpr ⟨standard.say s k, fun k' hk' => ?_, ?_, rfl⟩
  · rw [valueOf_say hk, if_neg hk', read_valueOf]
  · rw [valueOf_say hk, if_pos rfl]

/-- A text of the command line alone. -/
theorem load_override_alone (hk : k.isFlagged = true) (s : String) (tree : Files.Tree) :
    load tree none (Overrides.none.say s k) [] = .ok (normalized (standard.say s k)) := by
  have hfound : Value.toText? (.text s) = some s := rfl
  refine load_alone hk hfound (fun k' => ?_) ⟨.nil, nofun, nofun⟩
  rw [layered_say hk, layered_nothing]

theorem namesApart_variable (hname : SameLetters name k.variableName) (v : String) :
    NamesApart [(name, v)] where
  distinct := List.pairwise_singleton _ _
  written e he _ := by
    obtain rfl := List.mem_singleton.mp he
    exact ⟨k.names, hname.trans k.sameLetters_variableOf, k.separate, k.spellable⟩

/-- A variable alone. -/
theorem load_variable_alone (hk : k.isFlagged = true) (hname : SameLetters name k.variableName)
    (v : String) (tree : Files.Tree) :
    load tree none .none [(name, v)] = .ok (normalized (standard.say (reprinted v) k)) := by
  have ho : Overrides.none.valueOf k = none := by cases k <;> rfl
  have henvironment := (namesApart_variable hname v).dotted
  refine load_alone hk (toText?_ofText v) (fun k' => ?_) henvironment
  rw [← layered_nothing]
  exact layered_of_variable [] [] (Key.variableKey?_of_sameLetters hname) henvironment ho [] k'

/-! ## The environment and the command line -/

/-- Whatever variable sets a text, it does so as the command line would with another text. -/
theorem load_variable_of_key_as_reprinted (before after : List (String × String))
    (hk : k.isFlagged = true) (hname : variableKey? variableMark name = some k.key)
    (hfile : path.elim (.ok []) (fileLayer tree) = .ok layer) (hlayer : Orderly (.table layer))
    (henvironment : Dotted (environmentLayer variableMark (before ++ (name, v) :: after)))
    (ho : o.valueOf k = none) :
    let byVariable := load tree path o (before ++ (name, v) :: after)
    let byOverride (s : String) := load tree path (o.say s k) (before ++ after)
    (∀ c, byVariable = .ok c ↔ byOverride (reprinted v) = .ok c) ∧
    (Value.ofText v = .text v → reprinted v = v) ∧
    (∀ c, byOverride v = .ok c → (byVariable = .ok c ↔ reprinted v = v)) ∧
    (∀ c, byOverride v = .ok c → c.valueOf k = k.cleared (some (.text v)) ∧
      ∃ c', byVariable = .ok c' ∧ c'.valueOf k = k.cleared (some (.text (reprinted v))) ∧
        ∀ k', k' ≠ k → c'.valueOf k' = c.valueOf k') := by
  intro byVariable byOverride
  have hkind := Key.kind_of_isFlagged hk
  have hvariable (c : Config) : byVariable = .ok c ↔ _ := load_eq_ok_iff_of_text hkind
    (toText?_ofText v) (layered_of_variable before after hname henvironment ho layer) hfile hlayer
    henvironment
  have hoverride (s : String) (c : Config) : byOverride s = .ok c ↔ _ :=
    load_eq_ok_iff_of_text hkind (s := s) rfl (layered_say hk o s layer) hfile hlayer
      (dotted_without_variable before after hname henvironment)
  have hsame (c : Config) : byVariable = .ok c ↔ byOverride (reprinted v) = .ok c :=
    (hvariable c).trans (hoverride _ c).symm
  refine ⟨hsame, reprinted_of_text, fun c hc => ?_, fun c hc => ?_⟩
  · obtain ⟨raw, -, hraw, rfl⟩ := (hoverride v c).mp hc
    constructor
    · intro hc'
      obtain ⟨raw', -, hraw', hnormalized⟩ := (hvariable _).mp hc'
      have hcleared : k.cleared (raw'.valueOf k) = k.cleared (raw.valueOf k) := by
        rw [← valueOf_normalized, hnormalized, valueOf_normalized]
      rw [hraw, hraw'] at hcleared
      exact Key.cleared_text_inj hcleared
    · intro hreprinted
      rw [hsame, hreprinted]
      exact hc
  · obtain ⟨raw, hrest, hraw, rfl⟩ := (hoverride v c).mp hc
    have hsaid := raw.valueOf_say hk (reprinted v)
    refine ⟨by rw [valueOf_normalized, hraw], normalized (raw.say (reprinted v) k),
      (hvariable _).mpr ⟨raw.say (reprinted v) k, fun k' hk' => ?_, ?_, rfl⟩, ?_,
      fun k' hk' => ?_⟩
    · rw [hsaid, if_neg hk', hrest k' hk']
    · rw [hsaid, if_pos rfl]
    · rw [valueOf_normalized, hsaid, if_pos rfl]
    · rw [valueOf_normalized, hsaid, if_neg hk', valueOf_normalized]

/-- A variable sets a text as the command line does, to what becomes of its text: that is the text
itself unless it reads as a boolean or a number, and nothing else is set in another way. Where it is
another text, the configuration is another one, in this setting alone. -/
theorem load_variable_as_reprinted (before after : List (String × String))
    (hk : k.isFlagged = true) (hname : SameLetters name k.variableName)
    (hfile : path.elim (.ok []) (fileLayer tree) = .ok layer) (hlayer : Orderly (.table layer))
    (henvironment : NamesApart (before ++ (name, v) :: after)) (ho : o.valueOf k = none) :
    let byVariable := load tree path o (before ++ (name, v) :: after)
    let byOverride (s : String) := load tree path (o.say s k) (before ++ after)
    (∀ c, byVariable = .ok c ↔ byOverride (reprinted v) = .ok c) ∧
    (Value.ofText v = .text v → reprinted v = v) ∧
    (∀ c, byOverride v = .ok c → (byVariable = .ok c ↔ reprinted v = v)) ∧
    (∀ c, byOverride v = .ok c → c.valueOf k = k.cleared (some (.text v)) ∧
      ∃ c', byVariable = .ok c' ∧ c'.valueOf k = k.cleared (some (.text (reprinted v))) ∧
        ∀ k', k' ≠ k → c'.valueOf k' = c.valueOf k') :=
  load_variable_of_key_as_reprinted before after hk (Key.variableKey?_of_sameLetters hname) hfile
    hlayer henvironment.dotted ho

/-- A directory with zeros in front of its name, and one with a plain name. -/
theorem load_variable_as_reprinted_directory :
    let byVariable (v : String) := load .empty none .none [("SEMPAR__CORPUS__PATH", v)]
    let byOverride (s : String) := load .empty none { Overrides.none with corpus := some s } []
    (∀ c, byVariable "007" = .ok c ↔ byOverride "7" = .ok c) ∧
      (∀ c, byVariable "gold" = .ok c ↔ byOverride "gold" = .ok c) ∧
      ∃ c c', byOverride "007" = .ok c ∧ byVariable "007" = .ok c' ∧
        c.valueOf .path = some (.text "007") ∧ c'.valueOf .path = some (.text "7") := by
  intro byVariable byOverride
  have hname : SameLetters "SEMPAR__CORPUS__PATH" (Key.variableName .path) := rfl
  have hfile : (none : Option String).elim (.ok []) (fileLayer .empty) = .ok [] := rfl
  have hzeros : reprinted "007" = "7" := by decide +kernel
  have hplain : reprinted "gold" = "gold" := by decide +kernel
  obtain ⟨hsame, -, -, hfields⟩ := load_variable_as_reprinted (k := .path) (o := .none) [] []
    rfl hname hfile .empty (namesApart_variable hname "007") rfl
  obtain ⟨hsame', -⟩ := load_variable_as_reprinted (k := .path) (o := .none) [] []
    rfl hname hfile .empty (namesApart_variable hname "gold") rfl
  rw [hzeros] at hsame hfields
  rw [hplain] at hsame'
  have hoverride : byOverride "007" = .ok (normalized (standard.say "007" .path)) :=
    load_override_alone (k := .path) rfl "007" .empty
  obtain ⟨hpath, c', hvariable, hpath', -⟩ := hfields _ hoverride
  exact ⟨hsame, hsame', _, c', hoverride, hvariable, hpath, hpath'⟩

/-- The zeros are lost on the way through the environment, and only there. -/
theorem load_variable_loses_zeros :
    ∃ c c', load .empty none .none [("SEMPAR__CORPUS__PATH", "007")] = .ok c ∧
      load .empty none { Overrides.none with corpus := some "007" } [] = .ok c' ∧
      c.corpus.path = "7" ∧ c'.corpus.path = "007" := by
  have hname : SameLetters "SEMPAR__CORPUS__PATH" (Key.variableName .path) := rfl
  exact ⟨_, _, load_variable_alone rfl hname "007" .empty,
    load_override_alone (k := .path) rfl "007" .empty, by decide +kernel, rfl⟩

end Config

end CorpusAnnotator
