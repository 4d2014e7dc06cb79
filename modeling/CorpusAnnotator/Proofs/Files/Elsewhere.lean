import CorpusAnnotator.Proofs.Files.ReadBack

/-! A write elsewhere leaves a file as it is. Whether two paths lead to one place can be told from
their text, since no step along a path leads anywhere but to its name or one level up. -/
namespace CorpusAnnotator.Files

open Results

/-- The place that a step leads to, whatever stands there. -/
def Place.step (p : Place) (name : String) : Place :=
  if name = "" ∨ name = "." then p
  else if name = ".." then p.parent
  else p.child name

/-- The place that a path leads to, whatever stands there. -/
def place? (path : String) : Option Place :=
  match Tree.route path with
  | .ok (start, steps) => some (steps.foldl Place.step start)
  | .error _ => none

namespace Tree

variable {t t' : Tree} {p q : Place} {path other name : String} {bytes content : List UInt8}
  {steps : List String}

/-! ## Places of paths -/

theorem enter_eq_step (h : t.enter p name = .ok q) : q = p.step name := by
  unfold Tree.enter at h
  unfold Place.step
  split at h
  · cases h
  · cases h
  · split at h
    · next hstay =>
      rw [if_pos hstay]
      exact (Except.ok.inj h).symm
    · next hstay =>
      rw [if_neg hstay]
      split at h
      · next hup =>
        rw [if_pos hup]
        exact (Except.ok.inj h).symm
      · next hup =>
        rw [if_neg hup]
        split at h
        · cases h
        · split at h
          · cases h
          · exact (Except.ok.inj h).symm

theorem foldlM_enter_eq_foldl_step (h : steps.foldlM t.enter p = .ok q) :
    q = steps.foldl Place.step p := by
  induction steps generalizing p with
  | nil => exact (Except.ok.inj h).symm
  | cons name steps ih =>
    rw [List.foldlM_cons] at h
    obtain ⟨p', hstep, hmore⟩ := bind_eq_ok_iff.mp h
    rw [List.foldl_cons, ← enter_eq_step hstep]
    exact ih hmore

theorem place?_of_resolve (h : t.resolve path = .ok p) : place? path = some p := by
  unfold resolve at h
  obtain ⟨⟨start, steps⟩, hroute, hsteps⟩ := bind_eq_ok_iff.mp h
  rw [place?, hroute, foldlM_enter_eq_foldl_step hsteps]

theorem place?_of_target (h : t.target path = .ok p) : place? path = some p := by
  obtain ⟨start, steps, parent, name, hroute, hsteps, -, hname, -, rfl⟩ := target_eq_ok h
  have hstay : ¬ (name = "" ∨ name = ".") := fun h => hname (h.imp_right Or.inl)
  have hup : name ≠ ".." := fun h => hname (.inr (.inr h))
  simp only [place?, hroute, List.foldl_append, List.foldl_cons, List.foldl_nil,
    ← foldlM_enter_eq_foldl_step hsteps, Place.step, if_neg hstay, if_neg hup]

/-! ## Files elsewhere -/

theorem Keeps.resolve (h : Keeps t t') (hpath : t.resolve path = .ok p) :
    t'.resolve path = .ok p := by
  unfold Tree.resolve at hpath ⊢
  obtain ⟨⟨start, steps⟩, hroute, hsteps⟩ := bind_eq_ok_iff.mp hpath
  rw [hroute, ok_bind]
  exact h.foldlM_enter hsteps

theorem read_eq_ok_iff : t.read path = .ok bytes ↔
    ∃ p executable, t.resolve path = .ok p ∧ t.node? p = some (.file bytes executable) := by
  unfold read
  constructor
  · intro h
    obtain ⟨p, hpath, h⟩ := bind_eq_ok_iff.mp h
    split at h
    · next bytes executable hnode =>
      cases h
      exact ⟨p, executable, hpath, hnode⟩
    · cases h
    · cases h
  · rintro ⟨p, executable, hpath, hnode⟩
    rw [hpath, ok_bind, hnode]
    rfl

/-- A file has the bytes that it had when another one has been written. -/
theorem read_of_write_elsewhere (h : t.write other content = .ok t')
    (helse : place? other ≠ place? path) (hread : t.read path = .ok bytes) :
    t'.read path = .ok bytes := by
  obtain ⟨q, executable', htarget, hq, rfl⟩ := write_eq_ok h
  obtain ⟨p, executable, hpath, hnode⟩ := read_eq_ok_iff.mp hread
  have hne : p ≠ q := by
    rintro rfl
    exact helse ((place?_of_target htarget).trans (place?_of_resolve hpath).symm)
  have hnames : p.names ≠ [] := by
    intro hnil
    rw [node?_of_names_eq_nil t hnil] at hnode
    cases hnode
  refine read_eq_ok_iff.mpr ⟨p, executable, (Keeps.put hq _).resolve hpath, ?_⟩
  rw [node?_put t q p _ hnames, if_neg hne]
  exact hnode

end Tree

end CorpusAnnotator.Files
