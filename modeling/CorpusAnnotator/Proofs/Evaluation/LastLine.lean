import CorpusAnnotator.Proofs.Evaluation.Lines
import CorpusAnnotator.Proofs.Evaluation.Scores

/-! The lines of an output decide its report: of each name the last line counts, and of all lines
the last one whose name begins as the headline has to. The first line that says nothing is what an
output is refused for. -/
namespace CorpusAnnotator.Evaluation.Report

open Number (Binary64)
open Results

variable {ls : List (List Char)} {entries : List (String × Binary64)} {name : String}
  {value : Binary64}

/-- The last line whose name is one of `p` says that `name` has `value`. -/
def LastSays (p : String → Prop) (ls : List (List Char)) (name : String) (value : Binary64) :
    Prop :=
  p name ∧ ∃ before line after, ls = before ++ line :: after ∧ Says line name value ∧
    ∀ l ∈ after, ∀ n v, Says l n v → ¬ p n

/-- A name begins as the headline has to. -/
def Begins (beginning name : String) : Prop :=
  beginning.toList <+: name.toList

/-! ## Entries and lines -/

/-- The entry of a line is what the line says. -/
theorem exists_says_iff (hls : ls.map readLine = entries.map .ok) {p : String → Prop} :
    (∃ l ∈ ls, ∃ name value, Says l name value ∧ p name) ↔ ∃ e ∈ entries, p e.1 := by
  constructor
  · rintro ⟨l, hl, name, value, hsays, hp⟩
    have hmem := List.mem_map_of_mem (f := readLine) hl
    rw [hls, readLine_eq_ok_iff.mpr hsays] at hmem
    obtain ⟨e, he, hok⟩ := List.mem_map.mp hmem
    cases hok
    exact ⟨_, he, hp⟩
  · rintro ⟨⟨name, value⟩, he, hp⟩
    obtain ⟨l, hl, hok⟩ : ∃ l ∈ ls, readLine l = .ok (name, value) := by
      rw [← List.mem_map, hls]
      exact List.mem_map_of_mem he
    exact ⟨l, hl, name, value, readLine_eq_ok_iff.mp hok, hp⟩

/-- The last line of a kind gives the last entry of that kind. -/
theorem lastSays_iff (hls : ls.map readLine = entries.map .ok) (p : String → Prop) :
    LastSays p ls name value ↔
      p name ∧ ∃ front back, entries = front ++ (name, value) :: back ∧ ∀ e ∈ back, ¬ p e.1 := by
  refine and_congr_right fun _ => ⟨?_, ?_⟩
  · rintro ⟨before, line, after, rfl, hsays, hafter⟩
    rw [List.map_append, List.map_cons, readLine_eq_ok_iff.mpr hsays] at hls
    obtain ⟨front, rest, rfl, -, hrest⟩ := List.map_eq_append_iff.mp hls.symm
    obtain ⟨e, back, rfl, hok, hback⟩ := List.map_eq_cons_iff.mp hrest
    cases hok
    refine ⟨front, back, rfl, fun e he hp => ?_⟩
    obtain ⟨l, hl, n, v, hsays, hn⟩ := (exists_says_iff hback.symm).mpr ⟨e, he, hp⟩
    exact hafter l hl n v hsays hn
  · rintro ⟨front, back, rfl, hback⟩
    rw [List.map_append, List.map_cons] at hls
    obtain ⟨before, rest, rfl, -, hrest⟩ := List.map_eq_append_iff.mp hls
    obtain ⟨line, after, rfl, hok, hafter⟩ := List.map_eq_cons_iff.mp hrest
    refine ⟨before, line, after, rfl, readLine_eq_ok_iff.mp hok, fun l hl n v hsays hn => ?_⟩
    obtain ⟨e, he, hp⟩ := (exists_says_iff hafter).mp ⟨l, hl, n, v, hsays, hn⟩
    exact hback e he hp

theorem exists_reverse_eq_iff {e : String × Binary64} {p : String → Prop} :
    (∃ as bs, entries.reverse = as ++ e :: bs ∧ ∀ a ∈ as, ¬ p a.1) ↔
      ∃ front back, entries = front ++ e :: back ∧ ∀ a ∈ back, ¬ p a.1 := by
  constructor
  · rintro ⟨as, bs, h, has⟩
    refine ⟨bs.reverse, as.reverse, ?_, fun a ha => has a (List.mem_reverse.mp ha)⟩
    rw [← List.reverse_reverse entries, h]
    simp
  · rintro ⟨front, back, rfl, hback⟩
    refine ⟨back.reverse, front.reverse, by simp, fun a ha => hback a (List.mem_reverse.mp ha)⟩

theorem lookup_reverse_eq_some_iff (hls : ls.map readLine = entries.map .ok) :
    entries.reverse.lookup name = some value ↔ LastSays (· = name) ls name value := by
  rw [lastSays_iff hls, ← exists_reverse_eq_iff (p := (· = name)),
    List.lookup_eq_some_iff]
  simp only [bne_iff_ne, ne_eq, true_and, eq_comm (a := name)]

theorem begins_iff {beginning name : String} :
    beginning.toList.isPrefixOf name.toList = true ↔ Begins beginning name :=
  List.isPrefixOf_iff_prefix

theorem headline?_eq_some_iff (hls : ls.map readLine = entries.map .ok) {beginning : String} :
    headline? beginning entries = some (name, value) ↔
      LastSays (Begins beginning) ls name value := by
  rw [lastSays_iff hls, ← exists_reverse_eq_iff, headline?, List.find?_eq_some_iff_append]
  simp only [begins_iff, Bool.not_eq_true', ← Bool.not_eq_true]

theorem headline?_eq_none_iff (hls : ls.map readLine = entries.map .ok) {beginning : String} :
    headline? beginning entries = none ↔
      ∀ l ∈ ls, ∀ name value, Says l name value → ¬ Begins beginning name := by
  have hnone : headline? beginning entries = none ↔ ¬ ∃ e ∈ entries, Begins beginning e.1 := by
    rw [headline?, List.find?_eq_none]
    simp only [begins_iff, List.mem_reverse, not_exists, not_and]
  rw [hnone, ← exists_says_iff hls]
  simp only [not_exists, not_and]

/-! ## Reports -/

theorem forall_wellFormed_iff :
    (∀ l ∈ ls, WellFormed l) ↔
      ∃ entries : List (String × Binary64), ls.map readLine = entries.map .ok := by
  constructor
  · intro h
    cases hread : ls.mapM readLine with
    | ok entries => exact ⟨entries, mapM_eq_ok_iff.mp hread⟩
    | error e =>
      obtain ⟨before, line, after, rfl, -, hline⟩ := mapM_eq_error_iff.mp hread
      obtain ⟨entry, hentry⟩ := wellFormed_iff.mp (h line (by simp))
      rw [hentry] at hline
      cases hline
  · rintro ⟨entries, hls⟩ l hl
    have hmem := List.mem_map_of_mem (f := readLine) hl
    rw [hls] at hmem
    obtain ⟨entry, -, hentry⟩ := List.mem_map.mp hmem
    exact wellFormed_iff.mpr ⟨entry, hentry.symm⟩

theorem ofEntries_eq_ok_iff {beginning : String} {r : Report} :
    ofEntries beginning entries = .ok r ↔
      headline? beginning entries = some (r.headline, r.overall) ∧ r.scores = .ofList entries := by
  unfold ofEntries
  cases hheadline : headline? beginning entries with
  | none => simp
  | some e =>
    obtain ⟨name, value⟩ := e
    constructor
    · intro h
      cases h
      exact ⟨rfl, rfl⟩
    · rintro ⟨hnamed, hscores⟩
      cases hnamed
      obtain ⟨scores, _, _⟩ := r
      cases hscores
      rfl

theorem ofEntries_eq_error_iff {beginning : String} {e : ReportError} :
    ofEntries beginning entries = .error e ↔
      headline? beginning entries = none ∧ e = .noHeadline beginning := by
  unfold ofEntries
  cases headline? beginning entries with
  | none => simp [eq_comm]
  | some e => simp

theorem read_eq_ok_iff {output beginning : String} {r : Report} :
    read output beginning = .ok r ↔
      ∃ entries, (lines output.toList).map readLine = entries.map .ok ∧
        headline? beginning entries = some (r.headline, r.overall) ∧
        r.scores = .ofList entries := by
  simp only [read, bind_eq_ok_iff, mapM_eq_ok_iff, ofEntries_eq_ok_iff]

theorem exists_read_iff (output beginning : String) :
    (∃ r, read output beginning = .ok r) ↔
      (∀ l ∈ lines output.toList, WellFormed l) ∧
        ∃ l ∈ lines output.toList, ∃ name value, Says l name value ∧ Begins beginning name := by
  rw [forall_wellFormed_iff]
  constructor
  · rintro ⟨r, hread⟩
    obtain ⟨entries, hls, hheadline, -⟩ := read_eq_ok_iff.mp hread
    obtain ⟨hbegins, before, l, after, hlines, hsays, -⟩ := (headline?_eq_some_iff hls).mp hheadline
    exact ⟨⟨entries, hls⟩, l, by rw [hlines]; simp, _, _, hsays, hbegins⟩
  · rintro ⟨⟨entries, hls⟩, l, hl, name, value, hsays, hbegins⟩
    cases hheadline : headline? beginning entries with
    | none => exact absurd hbegins ((headline?_eq_none_iff hls).mp hheadline l hl name value hsays)
    | some e =>
      refine ⟨⟨.ofList entries, e.1, e.2⟩, ?_⟩
      exact read_eq_ok_iff.mpr ⟨entries, hls, hheadline, rfl⟩

/-- What is said last of a name is all that is kept of it. -/
theorem mem_scores_iff {output beginning : String} {r : Report}
    (h : read output beginning = .ok r) (name : String) (value : Binary64) :
    (name, value) ∈ r.scores.entries ↔ LastSays (· = name) (lines output.toList) name value := by
  obtain ⟨entries, hls, -, hscores⟩ := read_eq_ok_iff.mp h
  rw [← lookup_reverse_eq_some_iff hls, ← Scores.get?_ofList, hscores]
  exact (Scores.sorted_ofList entries).mem_iff

/-- The headline's line is the last of its name, since any later one would begin in the same way. -/
theorem LastSays.named {p : String → Prop} (h : LastSays p ls name value) :
    LastSays (· = name) ls name value := by
  obtain ⟨hp, before, line, after, hls, hsays, hafter⟩ := h
  refine ⟨rfl, before, line, after, hls, hsays, fun l hl n v hn heq => ?_⟩
  have heq : n = name := heq
  exact hafter l hl n v hn (heq ▸ hp)

theorem read_eq_error_iff {output beginning : String} {e : ReportError} :
    read output beginning = .error e ↔
      (∃ before l after, lines output.toList = before ++ l :: after ∧
        (∀ l' ∈ before, WellFormed l') ∧ Fault l e) ∨
      (e = .noHeadline beginning ∧ (∀ l ∈ lines output.toList, WellFormed l) ∧
        ∀ l ∈ lines output.toList, ∀ name value, Says l name value → ¬ Begins beginning name) := by
  rw [read, bind_eq_error_iff, mapM_eq_error_iff]
  refine or_congr ?_ ?_
  · refine exists_congr fun before => exists_congr fun l => exists_congr fun after => ?_
    refine and_congr_right fun hlines => ?_
    have hl : l ∈ lines output.toList := by simp [hlines]
    rw [readLine_eq_error_iff hl]
    simp only [wellFormed_iff]
  · rw [forall_wellFormed_iff]
    constructor
    · rintro ⟨entries, hread, herror⟩
      obtain ⟨hheadline, rfl⟩ := ofEntries_eq_error_iff.mp herror
      have hls := mapM_eq_ok_iff.mp hread
      exact ⟨rfl, ⟨entries, hls⟩, (headline?_eq_none_iff hls).mp hheadline⟩
    · rintro ⟨rfl, ⟨entries, hls⟩, hnone⟩
      exact ⟨entries, mapM_eq_ok_iff.mpr hls,
        ofEntries_eq_error_iff.mpr ⟨(headline?_eq_none_iff hls).mpr hnone, rfl⟩⟩

/-- A tab at the end of a line is one of the blanks there. -/
theorem fault_of_blank_value {name blanks : List Char} (hname : '\t' ∉ name)
    (hblanks : ∀ c ∈ blanks, Text.isBlank c = true) :
    Fault (Text.trimEnd (name ++ '\t' :: blanks))
      (.badLine (String.ofList (Text.trimEnd (name ++ '\t' :: blanks)))) := by
  apply Fault.tabs
  have hline : Text.trimEnd (name ++ '\t' :: blanks) = Text.trimEnd name :=
    Text.trimEnd_append_of_blank (List.forall_mem_cons.mpr ⟨by decide, hblanks⟩) name
  rw [hline, List.count_eq_zero.mpr fun htab => hname (Text.trimEnd_prefix.subset htab)]
  decide

/-- An output is accepted exactly if each line says something and one of the names begins as the
headline has to. Each name then has the value that is said last of it, and the headline is the last
line of its kind, which is also the last of its name. Else the first line with a fault is told; a
name without a value is one whose tab is missing. -/
theorem read_takes_last (output beginning : String) :
    ((∃ r, read output beginning = .ok r) ↔
      (∀ l ∈ lines output.toList, WellFormed l) ∧
        ∃ l ∈ lines output.toList, ∃ name value, Says l name value ∧ Begins beginning name) ∧
    (∀ r, read output beginning = .ok r →
      Sorted r.scores.entries ∧
      (∀ name value, (name, value) ∈ r.scores.entries ↔
        LastSays (· = name) (lines output.toList) name value) ∧
      LastSays (Begins beginning) (lines output.toList) r.headline r.overall ∧
      r.scores.get? r.headline = some r.overall) ∧
    (∀ e, read output beginning = .error e ↔
      (∃ before l after, lines output.toList = before ++ l :: after ∧
        (∀ l' ∈ before, WellFormed l') ∧ Fault l e) ∨
      (e = .noHeadline beginning ∧ (∀ l ∈ lines output.toList, WellFormed l) ∧
        ∀ l ∈ lines output.toList, ∀ name value, Says l name value → ¬ Begins beginning name)) ∧
    (∀ name blanks, '\t' ∉ name → (∀ c ∈ blanks, Text.isBlank c = true) →
      Fault (Text.trimEnd (name ++ '\t' :: blanks))
        (.badLine (String.ofList (Text.trimEnd (name ++ '\t' :: blanks))))) := by
  refine ⟨exists_read_iff output beginning, fun r hread => ?_, fun e => read_eq_error_iff,
    fun name blanks => fault_of_blank_value⟩
  obtain ⟨entries, hls, hheadline, hscores⟩ := read_eq_ok_iff.mp hread
  have hlast := (headline?_eq_some_iff hls).mp hheadline
  have hsorted : Sorted r.scores.entries := hscores ▸ Scores.sorted_ofList entries
  refine ⟨hsorted, mem_scores_iff hread, hlast, ?_⟩
  exact hsorted.mem_iff.mp ((mem_scores_iff hread _ _).mpr hlast.named)

/-- A name that is said twice, blanks at the end of a line and around a number, and a line that says
nothing but a name. -/
theorem read_takes_last_repeated :
    let four : Binary64 := .finite false 4503599627370496 (-50)
    (∃ r, read "S_R\t1\nS\t2 \r\n\nF\t3\nS\t 4" "S" = .ok r ∧ r.headline = "S" ∧
      r.overall = four ∧ r.scores.get? "S" = some four) ∧
    read "S\t1\nF\t \nS\tx" "S" = .error (.badLine "F") := by
  intro four
  constructor
  · let r : Report := ⟨⟨[("F", .finite false 6755399441055744 (-51)), ("S", four),
      ("S_R", .finite false 4503599627370496 (-52))]⟩, "S", four⟩
    have hread : read "S_R\t1\nS\t2 \r\n\nF\t3\nS\t 4" "S" = .ok r := rfl
    exact ⟨r, hread, rfl, rfl, ((read_takes_last _ "S").2.1 r hread).2.2.2⟩
  · obtain ⟨-, -, herror, hblank⟩ := read_takes_last "S\t1\nF\t \nS\tx" "S"
    have hfirst : WellFormed ['S', '\t', '1'] :=
      ⟨"S", .finite false 4503599627370496 (-52), ['1'], rfl, by decide, by decide, rfl⟩
    have hfault := hblank ['F'] [' '] (by decide) (List.forall_mem_singleton.mpr rfl)
    exact (herror _).mpr (.inl ⟨[['S', '\t', '1']], ['F'], [['S', '\t', 'x']], rfl,
      List.forall_mem_singleton.mpr hfirst, hfault⟩)

end CorpusAnnotator.Evaluation.Report
