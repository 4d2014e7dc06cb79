import CorpusAnnotator.Proofs.Config.Counts
import CorpusAnnotator.Startup

/-! Counts from the command line in the configuration of a run. A count is honoured as it was given
or the program does not start; it is never taken for another, nor left to the file or the
environment. -/
namespace CorpusAnnotator.Startup

open CommandLine (Arguments CountOption parse)
open Number (SpellsNat maxInt64 maxNat64)
open Results
open Settings (environmentLayer)

variable {tree : Files.Tree} {environment : List (String × String)}
  {arguments before after given : List String} {c : Config} {n : Nat} {o : CountOption}
  {text : String}

/-- The configuration that a command line, the environment and a file come to. -/
def configured (tree : Files.Tree) (environment : List (String × String))
    (arguments : List String) : Except Error Config := do
  let a ← (parse arguments).mapError .refused
  (Config.load tree a.config a.overrides environment).mapError .settings

/-- A run begins with this configuration, if it makes sense and there is a model. -/
theorem begin_eq (tree : Files.Tree) (environment : List (String × String))
    (arguments : List String) : Startup.begin tree environment arguments = do
      let config ← configured tree environment arguments
      if (Logging.filter? environment config.logging.level).isNone then throw .filter
      config.validate.mapError .lack
      let (spec, checkpoint) ← (Model.locate tree config.model.input).mapError .model
      return ⟨config, spec, checkpoint⟩ := by
  rw [Startup.begin, configured, bind_assoc]

theorem configured_eq_ok_iff : configured tree environment arguments = .ok c ↔
    ∃ a, parse arguments = .ok a ∧ Config.load tree a.config a.overrides environment = .ok c := by
  simp only [configured, bind_eq_ok_iff, mapError_eq_ok_iff]

/-- Whatever numeral is given as a count, the program has it as it is or is refused: it is refused
from 2⁶³ on, and below that, another numeral may stand in the place of one that is accepted, and
any may be added where there is none and all other settings are in order. -/
theorem configured_count_exact_or_refused (hspells : SpellsNat n text.toList)
    (hgiven : given ∈ o.spellings text) (tree : Files.Tree) (environment : List (String × String))
    (before after : List String) :
    let result := configured tree environment (before ++ given ++ after)
    (∀ c, result = .ok c → o.countOf c = n) ∧
      (maxInt64 < n → ∃ e, result = .error e) ∧
      (n ≤ maxInt64 → ∀ m text' given' c, SpellsNat m text'.toList → given' ∈ o.spellings text' →
        configured tree environment (before ++ given' ++ after) = .ok c →
          result = .ok (o.setCount n c)) ∧
      (n ≤ maxInt64 → ∀ a₀ a raw, "--" ∉ before → parse before = .ok a₀ →
        parse (before ++ after) = .ok a → o.given? a = none →
        Config.OthersFit o tree a.config a.overrides environment raw →
          result = .ok (Config.normalized (o.setCount n raw))) := by
  intro result
  have hexact : ∀ c, result = .ok c → o.countOf c = n ∧ n ≤ maxInt64 := by
    intro c hc
    obtain ⟨a, hparse, hload⟩ := configured_eq_ok_iff.mp hc
    obtain ⟨hcount, hle⟩ := CountOption.given?_of_parse hspells hgiven hparse
    rw [← o.withCount_of_given? hcount] at hload
    exact Config.countOf_of_load hle hload
  refine ⟨fun c hc => (hexact c hc).1, fun hlarge => ?_, fun hsmall => ?_, fun hsmall => ?_⟩
  · cases hresult : result with
    | error e => exact ⟨e, rfl⟩
    | ok c => exact absurd (hexact c hresult).2 (Nat.not_le_of_gt hlarge)
  · intro m text' given' c hspells' hgiven' hc
    have hle : n ≤ maxNat64 := Nat.le_trans hsmall (by decide)
    obtain ⟨a, hparse, hload⟩ := configured_eq_ok_iff.mp hc
    obtain ⟨hcount, -⟩ := CountOption.given?_of_parse hspells' hgiven' hparse
    rw [← o.withCount_of_given? hcount] at hload
    refine configured_eq_ok_iff.mpr
      ⟨_, CountOption.parse_of_other hspells hgiven hspells' hgiven' hparse hle, ?_⟩
    rw [o.config_give, o.overrides_give]
    exact Config.load_of_other hsmall hload
  · intro a₀ a raw hend hbefore hparse hnone hothers
    have hle : n ≤ maxNat64 := Nat.le_trans hsmall (by decide)
    refine configured_eq_ok_iff.mpr
      ⟨_, CountOption.parse_of_without hspells hgiven hend hbefore hparse hnone hle, ?_⟩
    rw [o.config_give, o.overrides_give]
    exact hothers.load_eq hsmall

/-- A variable that says no number does not matter beside a count that is given, and 2⁶³ is refused
also where there is nothing else. -/
theorem configured_count_exact_or_refused_batch_size :
    let environment := [("SEMPAR__CORPUS__BATCH_SIZE", "many")]
    (∃ c, configured ⟨[]⟩ environment ["--input=m", "--batch_size", "+016", "--eval"] = .ok c ∧
        c.corpus.batchSize = 16 ∧ c.evaluation.enabled = true) ∧
      ∃ e, configured ⟨[]⟩ environment ["--batch_size=9223372036854775808"] = .error e := by
  intro environment
  have hnamed : environmentLayer Config.variableMark environment =
      [("corpus.batch_size", .text "many")] := by
    have hkey : Settings.variableKey? Config.variableMark "SEMPAR__CORPUS__BATCH_SIZE" =
        some "corpus.batch_size" := by
      decide +kernel
    have hmany : Config.Says .text "many" (.text "many") := by
      refine .text (by decide +kernel) (by decide +kernel) (fun n hn => ?_) (fun x hx => ?_)
      · cases Number.readInt64_eq_ok_iff.mpr hn
      · cases hx
    simp only [environment, environmentLayer, List.filterMap_cons, hkey, hmany.ofText_eq,
      Option.map_some, List.filterMap_nil]
  have hdotted : Config.Dotted (environmentLayer Config.variableMark environment) := by
    rw [hnamed]
    refine ⟨by decide, fun e he => ?_, by decide⟩
    obtain rfl := List.mem_singleton.mp he
    exact ⟨_, rfl, Config.Key.separate .batchSize⟩
  let a₀ : Arguments := { Arguments.empty with input := some "m" }
  let a : Arguments := { a₀ with evaluate := true }
  let raw : Config := { Config.standard with
    model := { Config.standard.model with input := "m" }
    evaluation := { Config.standard.evaluation with enabled := true } }
  have hothers : Config.OthersFit .batchSize ⟨[]⟩ none a.overrides environment raw := by
    refine ⟨hdotted, [], rfl, .empty, fun k hk => ?_⟩
    simp only [Config.layered, hnamed]
    cases k <;> first | rfl | exact absurd rfl hk
  have hbefore : parse ["--input=m"] = .ok a₀ := eq_ok_of_toOption (by decide +kernel)
  have hparse : parse ["--input=m", "--eval"] = .ok a := eq_ok_of_toOption (by decide +kernel)
  have hsmall : Number.readNat64 "+016".toList = .ok 16 := eq_ok_of_toOption (by decide +kernel)
  have hlarge : Number.readNat64 "9223372036854775808".toList = .ok (maxInt64 + 1) :=
    eq_ok_of_toOption (by decide +kernel)
  have hgiven : ["--batch_size", "+016"] ∈ CountOption.batchSize.spellings "+016" := by decide
  have hgiven' : ["--batch_size=9223372036854775808"] ∈
      CountOption.batchSize.spellings "9223372036854775808" := by
    decide
  obtain ⟨-, -, -, hloads⟩ := configured_count_exact_or_refused
    (Number.readNat_eq_ok_iff.mp hsmall).1 hgiven ⟨[]⟩ environment ["--input=m"] ["--eval"]
  obtain ⟨-, hrefused, -, -⟩ := configured_count_exact_or_refused
    (Number.readNat_eq_ok_iff.mp hlarge).1 hgiven' ⟨[]⟩ environment [] []
  exact ⟨⟨_, hloads (by decide) a₀ a raw (by decide) hbefore hparse rfl hothers, rfl, rfl⟩,
    hrefused (by decide)⟩

end CorpusAnnotator.Startup
