import CorpusAnnotator.Entries
import CorpusAnnotator.Proofs.CommandLine.Spelling

/-! Command lines in any order. Options may be given in any order and spelling, each once; a further
use of one of them, an argument that names no option and one that is none are refused wherever they
stand. -/
namespace CorpusAnnotator.CommandLine

open Results

/-- An argument that looks like an option and is written like none. -/
structure Unknown (argument : String) : Prop where
  hyphen : argument.toList.head? = some '-'
  more : argument ≠ "-" ∧ argument ≠ "--"
  unnamed : ∀ f : Flag, argument ≠ "--" ++ f.name ∧
    ∀ value, argument ≠ "--" ++ f.name ++ "=" ++ value

/-- An argument that is no option. -/
def Positional (argument : String) : Prop :=
  argument.toList.head? ≠ some '-' ∨ argument = "-"

variable {p : Progress} {a : Arguments} {f : Flag} {us : List Use} {argument : String}
  {before after again : List String} {value : Option String}

/-! ## Arguments that are refused -/

theorem name_of_lookup {name : String} (h : flags.lookup name = some f) : f.name = name := by
  have hnames : ∀ e ∈ flags, e.2.name = e.1 := by decide
  exact hnames _ (Entries.mem_of_lookup h)

/-- A name and what follows it are put together again. -/
theorem eq_of_splitLong {text : List Char} {name : String} (h : splitLong text = (name, value)) :
    (value = none ∧ text = name.toList) ∨
      ∃ s, value = some s ∧ text = name.toList ++ '=' :: s.toList := by
  have htext := List.takeWhile_append_dropWhile (p := fun c : Char => decide (c ≠ '=')) (l := text)
  unfold splitLong at h
  split at h
  · next hbehind =>
    cases h
    rw [hbehind, List.append_nil] at htext
    exact .inl ⟨rfl, by rw [String.toList_ofList, htext]⟩
  · next c behind hbehind =>
    cases h
    have hhead := List.head?_dropWhile_not (fun c : Char => decide (c ≠ '=')) text
    rw [hbehind] at hhead
    obtain rfl : c = '=' := by simpa using hhead
    rw [hbehind] at htext
    exact .inr ⟨_, rfl, by rw [String.toList_ofList, String.toList_ofList, htext]⟩

/-- Behind two hyphens, an argument is unknown if its name is not in the table. -/
theorem unknown_iff {text : List Char} (htext : argument.toList = '-' :: '-' :: text)
    (hne : text ≠ []) : Unknown argument ↔ flags.lookup (splitLong text).1 = none := by
  have hname (f : Flag) : ("--" ++ f.name).toList = '-' :: '-' :: f.name.toList := by
    simp [String.toList_append]
  have hequals (f : Flag) (s : String) : ("--" ++ f.name ++ "=" ++ s).toList =
      '-' :: '-' :: (f.name.toList ++ '=' :: s.toList) := by
    simp [String.toList_append]
  constructor
  · intro h
    cases hlookup : flags.lookup (splitLong text).1 with
    | none => rfl
    | some f =>
      exfalso
      cases hsplit : splitLong text with
      | mk name value =>
        rw [hsplit] at hlookup
        obtain rfl := name_of_lookup hlookup
        rcases eq_of_splitLong hsplit with ⟨-, rfl⟩ | ⟨s, -, rfl⟩
        · exact (h.unnamed f).1 (String.toList_inj.mp (htext.trans (hname f).symm))
        · exact (h.unnamed f).2 s (String.toList_inj.mp (htext.trans (hequals f s).symm))
  · intro hlookup
    refine ⟨by rw [htext]; rfl, ⟨?_, ?_⟩, fun f => ⟨?_, fun s => ?_⟩⟩
    · rintro rfl
      cases htext
    · rintro rfl
      exact hne (List.cons.inj (List.cons.inj htext).2).2.symm
    · rintro rfl
      rw [hname] at htext
      obtain rfl := (List.cons.inj (List.cons.inj htext).2).2
      rw [splitLong_name, lookup_name] at hlookup
      cases hlookup
    · rintro rfl
      rw [hequals] at htext
      obtain rfl := (List.cons.inj (List.cons.inj htext).2).2
      rw [splitLong_equals, lookup_name] at hlookup
      cases hlookup

/-- A request is no switch that can be stored. -/
theorem Progress.switch_request {s : Switch} (hs : s = .help ∨ s = .version) (p : Progress) :
    ∃ e, p.switch s = .error e := by
  rw [Progress.switch]
  cases p.settle with
  | ok a => rcases hs with rfl | rfl <;> exact ⟨_, rfl⟩
  | error e => exact ⟨e, rfl⟩

theorem Unknown.advance (h : Unknown argument) (p : Progress) :
    ∃ e, p.advance argument = .error e := by
  obtain ⟨rest, htext⟩ := List.head?_eq_some_iff.mp h.hyphen
  unfold Progress.advance
  split
  · next text htext =>
    have hne : text ≠ [] := by
      rintro rfl
      exact h.more.2 (String.toList_inj.mp htext)
    simp only [Progress.long, (unknown_iff htext hne).mp h]
    exact ⟨_, rfl⟩
  · split
    · exact p.switch_request (.inl rfl)
    · split
      · exact p.switch_request (.inr rfl)
      · exact ⟨_, rfl⟩
  · next hlong hshort =>
    exfalso
    cases rest with
    | nil => exact h.more.1 (String.toList_inj.mp htext)
    | cons c rest => exact hshort c rest htext

theorem Positional.advance (h : Positional argument) (p : Progress) :
    p.advance argument = p.plain argument := by
  unfold Progress.advance
  split
  · next htext =>
    rcases h with h | rfl
    · exact absurd (congrArg List.head? htext) h
    · cases htext
  · next htext =>
    rcases h with h | rfl
    · exact absurd (congrArg List.head? htext) h
    · cases htext
  · rfl

/-- What is taken while an option waits for its value is no option. -/
theorem positional_of_advance {o : Valued}
    (h : Progress.advance ⟨a, some (o, none)⟩ argument = .ok p) : Positional argument := by
  have hswitch (s : Switch) : Progress.switch ⟨a, some (o, none)⟩ s = .error .missingValue := rfl
  unfold Progress.advance at h
  split at h
  · simp only [Progress.long, hswitch] at h
    split at h <;> cases h
  · simp only [hswitch] at h
    split at h
    · cases h
    · split at h <;> cases h
  · next hlong hshort =>
    by_cases hhead : argument.toList.head? = some '-'
    · obtain ⟨rest, htext⟩ := List.head?_eq_some_iff.mp hhead
      cases rest with
      | nil => exact .inr (String.toList_inj.mp htext)
      | cons c rest => exact absurd htext (hshort c rest)
    · exact .inl hhead

/-! ## Command lines that are refused -/

theorem parse_of_unknown (h : Unknown argument) (before after : List String) :
    ∃ e, parse (before ++ argument :: after) = .error e := by
  cases hparse : parse (before ++ argument :: after) with
  | error e => exact ⟨e, rfl⟩
  | ok b =>
    exfalso
    rw [parse, Progress.read_append (notMem_of_read hparse (by simp))] at hparse
    obtain ⟨p, -, hread⟩ := bind_eq_ok_iff.mp hparse
    rw [Progress.read_cons h.more.2] at hread
    obtain ⟨p', hadvance, -⟩ := bind_eq_ok_iff.mp hread
    obtain ⟨e, herror⟩ := h.advance p
    rw [herror] at hadvance
    cases hadvance

/-- An option that waits has at most one value. -/
theorem parse_of_positional (h : Positional argument) (hparse : parse (before ++ after) = .ok a) :
    ∃ e, parse (before ++ argument :: after) = .error e := by
  cases hmore : parse (before ++ argument :: after) with
  | error e => exact ⟨e, rfl⟩
  | ok b =>
    exfalso
    have hend : "--" ∉ before := notMem_of_read hmore (by simp)
    have hargument : argument ≠ "--" := by
      rintro rfl
      exact h.elim (fun h => h rfl) (by decide)
    rw [parse, Progress.read_append hend] at hparse hmore
    obtain ⟨p, hp, hread⟩ := bind_eq_ok_iff.mp hparse
    rw [hp, ok_bind, Progress.read_cons hargument, h.advance] at hmore
    obtain ⟨p', hplain, hmore⟩ := bind_eq_ok_iff.mp hmore
    obtain ⟨stored, pending⟩ := p
    rcases pending with - | ⟨o, - | value⟩
    · cases hplain
    · cases hplain
      -- what stood behind the option as its value comes one too late now
      cases after with
      | nil => cases hread
      | cons next rest =>
        by_cases hnext : next = "--"
        · subst hnext
          rw [Progress.read_end] at hread
          split at hread <;> cases hread
        · rw [Progress.read_cons hnext] at hread hmore
          obtain ⟨p', hadvance, -⟩ := bind_eq_ok_iff.mp hread
          rw [(positional_of_advance hadvance).advance] at hmore
          cases hmore
    · cases hplain

/-- An option that has been given cannot be given again. -/
theorem parse_of_again (hagain : Use.Spelled ⟨f, value⟩ again)
    (hparse : parse (before ++ after) = .ok a) (hsome : a.datum f ≠ none) :
    ∃ e, parse (before ++ again ++ after) = .error e := by
  cases hmore : parse (before ++ again ++ after) with
  | error e => exact ⟨e, rfl⟩
  | ok b =>
    exfalso
    have hne : again ++ after ≠ [] := by
      cases hagain <;> simp
    rw [parse, List.append_assoc] at hmore
    have hend : "--" ∉ before := notMem_of_read hmore hne
    rw [parse, Progress.read_append hend] at hparse
    rw [Progress.read_append hend] at hmore
    obtain ⟨p, hp, hread⟩ := bind_eq_ok_iff.mp hparse
    rw [hp, ok_bind, hagain.read_iff] at hmore
    obtain ⟨a₀, a₁, hsettle, hstore, hmore⟩ := hmore
    rw [Progress.read_of_settle hsettle] at hread
    obtain ⟨hnone, ⟨d, hd⟩, ha₁⟩ := Use.of_store hstore
    -- the same options are stored behind the one and the other
    obtain ⟨us, hus⟩ := Reads.exists_read none after
    obtain ⟨-, ha⟩ := of_storeAll ((hus a₀ a).mp hread)
    obtain ⟨hnew, -⟩ := of_storeAll ((hus a₁ b).mp hmore)
    obtain ⟨d', hd'⟩ := Option.ne_none_iff_exists'.mp hsome
    rcases (ha f d').mp hd' with hbefore | ⟨u, hu, rfl, -⟩
    · rw [hnone] at hbefore
      cases hbefore
    · have hgiven := (ha₁ u.flag d).mpr (.inr ⟨rfl, hd⟩)
      rw [hnew u hu] at hgiven
      cases hgiven

/-! ## Command lines that are read -/

/-- Options that are distinct and mean something are read in any order and any spelling, always to
the same: each has left in its place what it means, and all other places are empty. With one of them
once more, or with an argument that is none of the options, the command line is refused. -/
theorem parse_of_uses (hvalid : ∀ u ∈ us, u.Valid) (hdistinct : (us.map Use.flag).Nodup) :
    ∃ a : Arguments, (∀ f d, a.datum f = some d ↔ ∃ u ∈ us, u.flag = f ∧ u.Means d) ∧
      ∀ vs pieces, vs.Perm us → List.Forall₂ Use.Spelled vs pieces →
        parse pieces.flatten = .ok a ∧
          ∀ before after, before ++ after = pieces.flatten →
            (∀ u ∈ us, ∀ value again, Use.Spelled ⟨u.flag, value⟩ again →
              ∃ e, parse (before ++ again ++ after) = .error e) ∧
            ∀ argument, Unknown argument ∨ Positional argument →
              ∃ e, parse (before ++ argument :: after) = .error e := by
  have hempty (vs : List Use) : ∀ v ∈ vs, Arguments.empty.datum v.flag = none :=
    fun v _ => Arguments.datum_empty v.flag
  obtain ⟨a, hstored⟩ := exists_storeAll hdistinct hvalid (hempty us)
  have ha (f : Flag) (d : Datum) : a.datum f = some d ↔ ∃ u ∈ us, u.flag = f ∧ u.Means d := by
    rw [(of_storeAll hstored).2, Arguments.datum_empty]
    exact ⟨fun h => h.resolve_left nofun, .inr⟩
  refine ⟨a, ha, fun vs pieces hperm hspelled => ?_⟩
  have hparse : parse pieces.flatten = .ok a := by
    obtain ⟨b, hb⟩ := exists_storeAll ((hperm.map Use.flag).nodup_iff.mpr hdistinct)
      (fun v hv => hvalid v (hperm.mem_iff.mp hv)) (hempty vs)
    have hba : b = a := by
      refine Arguments.datum_injective (funext fun f => Option.ext fun d => ?_)
      rw [(of_storeAll hb).2, (of_storeAll hstored).2]
      simp only [hperm.mem_iff]
    exact hba ▸ (read_pieces_iff hspelled).mpr hb
  refine ⟨hparse, fun before after hsplit => ?_⟩
  rw [← hsplit] at hparse
  refine ⟨fun u hu value again hagain => ?_, fun argument hargument => ?_⟩
  · obtain ⟨d, hd⟩ := hvalid u hu
    refine parse_of_again hagain hparse ?_
    rw [(ha u.flag d).mpr ⟨u, hu, rfl, hd⟩]
    exact Option.some_ne_none d
  · rcases hargument with hunknown | hpositional
    · exact parse_of_unknown hunknown before after
    · exact parse_of_positional hpositional hparse

/-- A value that looks like an option, in two orders and spellings; and an option given again, a
misspelt one, and a stray argument between an option and its value. -/
theorem parse_of_uses_three : ∃ a,
    parse ["--eval", "--threads", "+08", "--corpus=--gold=x"] = .ok a ∧
      parse ["--corpus=--gold=x", "--threads=+08", "--eval"] = .ok a ∧
      a.datum (.valued .corpus) = some (.text "--gold=x") ∧ a.datum (.valued .gold) = none ∧
      (∃ e, parse ["--threads=4", "--eval", "--threads", "+08", "--corpus=--gold=x"] = .error e) ∧
      (∃ e, parse ["--eval", "--threads", "+08", "--corpus=--gold=x", "--glod=y"] = .error e) ∧
      ∃ e, parse ["--eval", "--threads", "4", "+08", "--corpus=--gold=x"] = .error e := by
  let evaluate : Use := ⟨.switch .evaluate, none⟩
  let threads : Use := ⟨.valued .threads, some "+08"⟩
  let corpus : Use := ⟨.valued .corpus, some "--gold=x"⟩
  have height : Number.readNat64 "+08".toList = .ok 8 := eq_ok_of_toOption (by decide +kernel)
  have hvalid : ∀ u ∈ [evaluate, threads, corpus], u.Valid := by
    simp only [List.forall_mem_cons]
    obtain ⟨hspells, hle⟩ := Number.readNat_eq_ok_iff.mp height
    exact ⟨⟨_, .on (.inl rfl)⟩, ⟨_, .count rfl hspells hle⟩, ⟨_, .text rfl nofun⟩, nofun⟩
  obtain ⟨a, ha, hread⟩ := parse_of_uses hvalid (by decide)
  obtain ⟨hparse, hrefused⟩ := hread [evaluate, threads, corpus] _ (.refl _)
    (.cons (.alone .evaluate) (.cons (.apart .threads (by decide))
      (.cons (.joined .corpus "--gold=x") .nil)))
  obtain ⟨hother, -⟩ := hread [corpus, threads, evaluate] _ (by decide)
    (.cons (.joined .corpus "--gold=x") (.cons (.joined .threads "+08")
      (.cons (.alone .evaluate) .nil)))
  have hname : "--glod=y".toList = '-' :: '-' :: ['g', 'l', 'o', 'd', '=', 'y'] := by decide
  have hunknown : Unknown "--glod=y" := (unknown_iff hname (by decide)).mpr (by decide)
  refine ⟨a, hparse, hother, ?_, ?_, ?_, ?_, ?_⟩
  · exact (ha _ _).mpr ⟨corpus, by simp, rfl, .text rfl nofun⟩
  · refine Option.eq_none_iff_forall_ne_some.mpr fun d hd => ?_
    obtain ⟨u, hu, hflag, -⟩ := (ha _ d).mp hd
    simp only [List.mem_cons, List.not_mem_nil, or_false] at hu
    rcases hu with rfl | rfl | rfl <;> cases hflag
  · exact (hrefused [] _ rfl).1 threads (by simp) _ _ (.joined .threads "4")
  · exact (hrefused _ [] (List.append_nil _)).2 "--glod=y" (.inl hunknown)
  · exact (hrefused ["--eval", "--threads"] ["+08", "--corpus=--gold=x"] rfl).2 "4"
      (.inr (.inl (by decide)))

end CorpusAnnotator.CommandLine
