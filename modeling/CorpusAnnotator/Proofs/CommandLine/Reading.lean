import CorpusAnnotator.CommandLine
import CorpusAnnotator.Proofs.Results

/-! Reading a command line argument by argument. What an argument does depends on those before it
only through what they have stored and the option that waits for a value, and an option that has
its value might as well have been stored. -/
namespace CorpusAnnotator.CommandLine

open Results

/-- Read one argument that does not end the options. -/
def Progress.advance (p : Progress) (argument : String) : Except Refusal Progress :=
  match argument.toList with
  | '-' :: '-' :: text => p.long text
  | '-' :: c :: _ =>
    if c = 'h' then p.switch .help
    else if c = 'V' then p.switch .version
    else .error .unknownArgument
  | _ => p.plain argument

variable {p : Progress} {a a₀ : Arguments} {argument text : String} {before rest : List String}

theorem Progress.read_cons (h : argument ≠ "--") (rest : List String) :
    p.read (argument :: rest) = p.advance argument >>= fun p => p.read rest := by
  rw [Progress.read, Progress.advance]
  split
  · next htext => exact absurd (String.toList_inj.mp (htext.trans rfl)) h
  · next htext =>
    simp only [htext]
  · next htext =>
    simp only [htext]
    split
    · rfl
    · split <;> rfl
  · next hend hlong hshort =>
    split
    · next htext => exact absurd htext (hlong _)
    · next htext => exact absurd htext (hshort _ _)
    · rfl

theorem Progress.read_end (p : Progress) (rest : List String) :
    p.read ("--" :: rest) = if rest.isEmpty then p.settle else .error .unknownArgument := rfl

theorem notMem_of_read (h : p.read (before ++ rest) = .ok a) (hne : rest ≠ []) :
    "--" ∉ before := by
  induction before generalizing p with
  | nil => exact List.not_mem_nil
  | cons argument before ih =>
    rw [List.cons_append] at h
    by_cases hend : argument = "--"
    · subst hend
      rw [Progress.read_end, if_neg (by simp [hne])] at h
      cases h
    · rw [Progress.read_cons hend] at h
      obtain ⟨p', -, h⟩ := bind_eq_ok_iff.mp h
      rw [List.mem_cons, not_or]
      exact ⟨Ne.symm hend, ih h⟩

theorem Progress.read_long {cs : List Char} (h : argument.toList = '-' :: '-' :: cs) (hne : cs ≠ [])
    (p : Progress) (rest : List String) :
    p.read (argument :: rest) = p.long cs >>= fun p => p.read rest := by
  have hend : argument ≠ "--" := by
    rintro rfl
    exact hne (List.cons.inj (List.cons.inj h).2).2.symm
  rw [Progress.read_cons hend, Progress.advance]
  simp only [h]

theorem Progress.read_append (h : "--" ∉ before) (p : Progress) (rest : List String) :
    p.read (before ++ rest) = before.foldlM Progress.advance p >>= fun p => p.read rest := by
  induction before generalizing p with
  | nil => rfl
  | cons argument before ih =>
    rw [List.mem_cons, not_or] at h
    obtain ⟨hend, hbefore⟩ := h
    rw [List.cons_append, Progress.read_cons (Ne.symm hend), List.foldlM_cons, bind_assoc]
    exact bind_congr fun p' => ih hbefore p'

/-- What is no option is the value of the one that waits for it. -/
theorem Progress.advance_of_pending (h : text.toList.head? ≠ some '-') (v : Valued) :
    Progress.advance ⟨a, some (v, none)⟩ text = .ok ⟨a, some (v, some text)⟩ := by
  unfold Progress.advance
  split
  · next htext => exact absurd (congrArg List.head? htext) h
  · next htext => exact absurd (congrArg List.head? htext) h
  · rfl

/-- An option that has its value might as well have been stored. -/
theorem Progress.advance_of_settle (h : p.settle = .ok a) (argument : String) :
    p.advance argument = Progress.advance ⟨a, none⟩ argument := by
  have hnone : (Progress.mk a none).settle = .ok a := rfl
  have hswitch : ∀ s, p.switch s = Progress.switch ⟨a, none⟩ s := by
    intro s
    rw [Progress.switch, Progress.switch, h, hnone]
  unfold Progress.advance
  split
  · next text _ =>
    simp only [Progress.long, h, hnone, hswitch]
  · simp only [hswitch]
  · unfold Progress.plain
    obtain ⟨stored, pending⟩ := p
    rcases pending with - | ⟨v, - | value⟩
    · rfl
    · cases h
    · rfl

theorem Progress.read_of_settle (h : p.settle = .ok a) (arguments : List String) :
    p.read arguments = Progress.read ⟨a, none⟩ arguments := by
  cases arguments with
  | nil => exact h
  | cons argument rest =>
    by_cases hend : argument = "--"
    · subst hend
      rw [Progress.read_end, Progress.read_end, h]
      rfl
    · rw [Progress.read_cons hend, Progress.read_cons hend, Progress.advance_of_settle h]

/-- What is read on has been stored, unless it still waits for a value. -/
theorem Progress.exists_settle_of_read (hvalue : ∀ v, p.pending ≠ some (v, none))
    {arguments : List String} (h : p.read arguments = .ok a) : ∃ a₀, p.settle = .ok a₀ := by
  cases hsettle : p.settle with
  | ok a₀ => exact ⟨a₀, rfl⟩
  | error e =>
    exfalso
    have hswitch : ∀ s, p.switch s = .error e := by
      intro s
      rw [Progress.switch, hsettle]
      rfl
    cases arguments with
    | nil =>
      rw [Progress.read, hsettle] at h
      cases h
    | cons argument rest =>
      by_cases hend : argument = "--"
      · subst hend
        rw [Progress.read_end, hsettle] at h
        split at h <;> cases h
      · rw [Progress.read_cons hend] at h
        obtain ⟨p', hp', -⟩ := bind_eq_ok_iff.mp h
        unfold Progress.advance at hp'
        split at hp'
        · simp only [Progress.long, hsettle, hswitch, error_bind] at hp'
          split at hp' <;> cases hp'
        · simp only [hswitch] at hp'
          split at hp'
          · cases hp'
          · split at hp' <;> cases hp'
        · unfold Progress.plain at hp'
          split at hp'
          · next v hpending => exact hvalue v hpending
          · cases hp'

theorem Progress.read_iff_of_value {v : Valued} {value : String} {arguments : List String} :
    Progress.read ⟨a₀, some (v, some value)⟩ arguments = .ok a ↔
      ∃ a₁, v.store value a₀ = .ok a₁ ∧ Progress.read ⟨a₁, none⟩ arguments = .ok a := by
  constructor
  · intro h
    obtain ⟨a₁, hstore⟩ := Progress.exists_settle_of_read (by simp) h
    exact ⟨a₁, hstore, Progress.read_of_settle hstore _ ▸ h⟩
  · rintro ⟨a₁, hstore, h⟩
    exact (Progress.read_of_settle (p := ⟨a₀, some (v, some value)⟩) hstore _).trans h

end CorpusAnnotator.CommandLine
