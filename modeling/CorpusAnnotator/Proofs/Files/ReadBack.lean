import CorpusAnnotator.Files.Tree
import CorpusAnnotator.Proofs.Results

/-! A file that has been written is read back. Its path is resolved anew for that, so the steps
along it have to lead to the same place after the write as before. -/
namespace CorpusAnnotator.Files

open Results

namespace Tree

variable {t t' : Tree} {p q : Place} {path name : String} {bytes : List UInt8}

/-- What a write leaves of a tree: directories stay, and no place loses what it has. -/
structure Keeps (t t' : Tree) : Prop where
  directory : ∀ {p}, t.node? p = some .directory → t'.node? p = some .directory
  something : ∀ {p n}, t.node? p = some n → ∃ n', t'.node? p = some n'

theorem node?_of_names_eq_nil (t : Tree) (h : p.names = []) : t.node? p = some .directory := by
  simp [node?, h]

/-- Where no directory stands, a file can be put. -/
theorem Keeps.put (h : t.node? p ≠ some .directory) (n : Node) : Keeps t (t.put p n) where
  directory {q} hq := by
    by_cases hnames : q.names = []
    · exact node?_of_names_eq_nil _ hnames
    · have hne : q ≠ p := by
        rintro rfl
        exact h hq
      rw [node?_put t p q n hnames, if_neg hne]
      exact hq
  something {q m} hq := by
    by_cases hnames : q.names = []
    · exact ⟨_, node?_of_names_eq_nil _ hnames⟩
    · rw [node?_put t p q n hnames]
      split
      · exact ⟨n, rfl⟩
      · exact ⟨m, hq⟩

theorem node?_put_self (h : t.node? p ≠ some .directory) (n : Node) :
    (t.put p n).node? p = some n := by
  have hnames : p.names ≠ [] := fun hnil => h (node?_of_names_eq_nil t hnil)
  rw [node?_put t p p n hnames, if_pos rfl]

/-! ## Steps -/

/-- A step that can be taken can still be taken, and leads to the same place. -/
theorem Keeps.enter (h : Keeps t t') (hstep : t.enter p name = .ok q) :
    t'.enter p name = .ok q := by
  unfold Tree.enter at hstep ⊢
  cases hp : t.node? p with
  | none =>
    rw [hp] at hstep
    cases hstep
  | some node =>
    rw [hp] at hstep
    cases node with
    | file content executable => cases hstep
    | directory =>
      rw [h.directory hp]
      cases hchild : t.node? (p.child name) with
      | some n =>
        obtain ⟨n', hn'⟩ := h.something hchild
        rw [hchild] at hstep
        rw [hn']
        exact hstep
      | none =>
        -- nothing stands there, so the step stays where it is or goes up
        rw [hchild] at hstep
        simp only at hstep ⊢
        split at hstep
        · next hstay => rw [if_pos hstay]; exact hstep
        · next hstay =>
          rw [if_neg hstay]
          split at hstep
          · next hup => rw [if_pos hup]; exact hstep
          · split at hstep <;> cases hstep

theorem Keeps.foldlM_enter (h : Keeps t t') {steps : List String}
    (hsteps : steps.foldlM t.enter p = .ok q) : steps.foldlM t'.enter p = .ok q := by
  induction steps generalizing p with
  | nil => exact hsteps
  | cons name steps ih =>
    rw [List.foldlM_cons] at hsteps ⊢
    obtain ⟨p', hstep, hmore⟩ := bind_eq_ok_iff.mp hsteps
    rw [h.enter hstep]
    exact ih hmore

/-- A step to something by its name. -/
theorem enter_child {n : Node} (hp : t.node? p = some .directory)
    (hname : ¬ (name = "" ∨ name = "." ∨ name = "..")) (hsize : ¬ longestName < name.utf8ByteSize)
    (hchild : t.node? (p.child name) = some n) : t.enter p name = .ok (p.child name) := by
  have hstay : ¬ (name = "" ∨ name = ".") := fun h => hname (h.imp_right Or.inl)
  have hup : name ≠ ".." := fun h => hname (.inr (.inr h))
  unfold Tree.enter
  rw [hp]
  simp only [if_neg hstay, if_neg hup, if_neg hsize, hchild]

/-! ## Files -/

/-- The place of a file is below the directory that all steps but the last lead to. -/
theorem target_eq_ok (h : t.target path = .ok q) :
    ∃ start steps p name, route path = .ok (start, steps ++ [name]) ∧
      steps.foldlM t.enter start = .ok p ∧ t.node? p = some .directory ∧
      ¬ (name = "" ∨ name = "." ∨ name = "..") ∧ ¬ longestName < name.utf8ByteSize ∧
      q = p.child name := by
  unfold target at h
  obtain ⟨⟨start, steps⟩, hroute, h⟩ := bind_eq_ok_iff.mp h
  obtain ⟨p, hsteps, h⟩ := bind_eq_ok_iff.mp h
  cases hp : t.node? p with
  | none =>
    simp only [hp] at h
    cases h
  | some node =>
    cases node with
    | file content executable =>
      simp only [hp] at h
      cases h
    | directory =>
      simp only [hp] at h
      split at h
      · cases h
      · next hname =>
        split at h
        · cases h
        · next hsize =>
          cases h
          -- a path without steps has no last one, and an empty name is none
          have hlast : steps ≠ [] := by
            rintro rfl
            exact hname (.inl rfl)
          have hget : steps.getLast?.getD "" = steps.getLast hlast := by
            rw [List.getLast?_eq_some_getLast hlast]
            rfl
          refine ⟨start, steps.dropLast, p, steps.getLast?.getD "", ?_, hsteps, hp, hname, hsize,
            rfl⟩
          rw [hroute, hget, List.dropLast_concat_getLast]

/-- A file that is begun stands at the place of its path, where no directory stands. -/
theorem create_eq_ok {written : List UInt8 → Tree} (h : t.create path = .ok written) :
    ∃ q executable, t.target path = .ok q ∧ t.node? q ≠ some .directory ∧
      ∀ bytes, written bytes = t.put q (.file bytes executable) := by
  unfold create at h
  obtain ⟨q, htarget, h⟩ := bind_eq_ok_iff.mp h
  cases hq : t.node? q with
  | none =>
    simp only [hq] at h
    cases h
    exact ⟨q, false, htarget, by rw [hq]; nofun, fun bytes => rfl⟩
  | some node =>
    cases node with
    | directory =>
      simp only [hq] at h
      cases h
    | file content executable =>
      simp only [hq] at h
      cases h
      exact ⟨q, executable, htarget, by rw [hq]; nofun, fun bytes => rfl⟩

/-- To write a file is to begin it and to write to it. -/
theorem write_eq_ok_iff : t.write path bytes = .ok t' ↔
    ∃ written, t.create path = .ok written ∧ written bytes = t' :=
  map_eq_ok_iff

/-- So a write puts a file at the place of its path. -/
theorem write_eq_ok (h : t.write path bytes = .ok t') :
    ∃ q executable, t.target path = .ok q ∧ t.node? q ≠ some .directory ∧
      t' = t.put q (.file bytes executable) := by
  obtain ⟨written, hcreate, rfl⟩ := write_eq_ok_iff.mp h
  obtain ⟨q, executable, htarget, hq, hwritten⟩ := create_eq_ok hcreate
  exact ⟨q, executable, htarget, hq, hwritten bytes⟩

/-- What has been written to a path is read from it. -/
theorem read_write (h : t.write path bytes = .ok t') : t'.read path = .ok bytes := by
  obtain ⟨q, executable, htarget, hq, rfl⟩ := write_eq_ok h
  obtain ⟨start, steps, p, name, hroute, hsteps, hp, hname, hsize, rfl⟩ := target_eq_ok htarget
  have hkeeps := Keeps.put hq (.file bytes executable)
  have hfile := node?_put_self hq (.file bytes executable)
  -- the steps but the last meet only directories, and the last one meets the new file
  have hresolve : (t.put (p.child name) (.file bytes executable)).resolve path =
      .ok (p.child name) := by
    unfold resolve
    rw [hroute, ok_bind]
    simp only
    rw [List.foldlM_append, hkeeps.foldlM_enter hsteps, ok_bind, List.foldlM_cons,
      enter_child (hkeeps.directory hp) hname hsize hfile]
    rfl
  rw [read, hresolve, ok_bind]
  simp only [hfile]
  rfl

end Tree

end CorpusAnnotator.Files
