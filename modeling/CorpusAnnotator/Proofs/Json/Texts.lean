import CorpusAnnotator.Json.Document
import CorpusAnnotator.Json.Printer
import Mathlib.Data.List.Forall2

/-! Texts as they are printed. Every character of a quoted text is read back, whether it stands there
itself or as an escape. -/
namespace CorpusAnnotator.Json

variable {c : Char} {p : Piece} {pieces : List Piece} {cs rest after : List Char}

/-- The pieces that a character is read as: itself, or the code unit of a control character. -/
def Piece.Spells (p : Piece) (c : Char) : Prop :=
  p = .char c ∨ p = .unit c.toNat ∧ c.toNat < 0x20

/-- The pieces of a text up to its closing quote. -/
def ReadsPieces (text : List Char) (pieces : List Piece) (after : List Char) : Prop :=
  ∃ h, readPieces text = (pieces, .ok ⟨after, h⟩)

theorem readsPieces_quote (after : List Char) : ReadsPieces ('"' :: after) [] after := by
  refine ⟨Nat.lt_succ_self _, ?_⟩
  rw [readPieces]
  rfl

/-- A character that stands for itself. -/
theorem ReadsPieces.char (h : ReadsPieces rest pieces after) (hquote : c ≠ '"') (hslash : c ≠ '\\')
    (hc : 0x20 ≤ c.toNat) : ReadsPieces (c :: rest) (.char c :: pieces) after := by
  obtain ⟨hlt, h⟩ := h
  refine ⟨by rw [List.length_cons]; omega, ?_⟩
  rw [readPieces, if_neg hquote, if_neg hslash, if_neg (by omega), h]
  rfl

theorem readsPieces_escape {escape : List Char} {taken : Text.Taken Piece escape}
    (hescape : readEscape escape = .ok taken) (h : ReadsPieces taken.rest pieces after) :
    ReadsPieces ('\\' :: escape) (taken.value :: pieces) after := by
  obtain ⟨hlt, h⟩ := h
  refine ⟨by have := taken.shorter; rw [List.length_cons]; omega, ?_⟩
  rw [readPieces, if_neg (by decide), if_pos rfl, hescape]
  simp only [h]
  rfl

/-- The escape of a control character by its number. -/
theorem readEscape_unit (hc : c.toNat < 0x20) (rest : List Char) :
    ∃ taken : Text.Taken Piece ('u' :: '0' :: '0' :: Nat.digitChar (c.toNat / 16) ::
        Nat.digitChar (c.toNat % 16) :: rest),
      readEscape _ = .ok taken ∧ taken.value = .unit c.toNat ∧ taken.rest = rest := by
  have hdigits : ∀ n < 0x20, (['0', '0', Nat.digitChar (n / 16), Nat.digitChar (n % 16)].mapM
      hexDigit?).map (·.foldl (fun n digit => 16 * n + digit) 0) = some n := by
    decide
  obtain ⟨digits, hdigits, hvalue⟩ := Option.map_eq_some_iff.mp (hdigits c.toNat hc)
  refine ⟨(Text.Taken.one (.unit c.toNat)).behind.behind.behind.behind, ?_, rfl, rfl⟩
  rw [readEscape, if_pos rfl, readUnit]
  simp only [hdigits, hvalue]
  rfl

/-- A character as it is printed is read as a piece that spells it. -/
theorem ReadsPieces.escaped (h : ReadsPieces rest pieces after) (c : Char) :
    ∃ p : Piece, p.Spells c ∧ ReadsPieces (escaped c ++ rest) (p :: pieces) after := by
  have hletter (letter : Char) (hread : readEscape (letter :: rest) = .ok (.one (.char c))) :
      ∃ p : Piece, p.Spells c ∧ ReadsPieces (['\\', letter] ++ rest) (p :: pieces) after :=
    ⟨.char c, .inl rfl, readsPieces_escape hread h⟩
  unfold Json.escaped
  split
  · next hc =>
    subst hc
    exact hletter '"' rfl
  next hquote =>
  split
  · next hc =>
    subst hc
    exact hletter '\\' rfl
  next hslash =>
  split
  · next hc =>
    subst hc
    exact hletter 'b' rfl
  split
  · next hc =>
    subst hc
    exact hletter 'f' rfl
  split
  · next hc =>
    subst hc
    exact hletter 'n' rfl
  split
  · next hc =>
    subst hc
    exact hletter 'r' rfl
  split
  · next hc =>
    subst hc
    exact hletter 't' rfl
  split
  · next hc =>
    obtain ⟨taken, hread, hvalue, hrest⟩ := readEscape_unit hc rest
    refine ⟨.unit c.toNat, .inr ⟨rfl, hc⟩, ?_⟩
    have hbehind : ReadsPieces taken.rest pieces after := by rwa [hrest]
    rw [← hvalue]
    exact readsPieces_escape hread hbehind
  · next hc => exact ⟨.char c, .inl rfl, h.char hquote hslash (Nat.le_of_not_lt hc)⟩

theorem exists_readsPieces (cs after : List Char) : ∃ pieces, List.Forall₂ Piece.Spells pieces cs ∧
    ReadsPieces (cs.flatMap escaped ++ '"' :: after) pieces after := by
  induction cs with
  | nil => exact ⟨[], .nil, readsPieces_quote after⟩
  | cons c cs ih =>
    obtain ⟨pieces, hspells, hread⟩ := ih
    obtain ⟨p, hp, hread⟩ := hread.escaped c
    rw [List.flatMap_cons, List.append_assoc]
    exact ⟨p :: pieces, .cons hp hspells, hread⟩

/-- What spells a character is no half of a pair. -/
theorem symbols_cons (hp : p.Spells c) (pieces : List Piece) :
    symbols (p :: pieces) = .char c :: symbols pieces := by
  rcases hp with rfl | ⟨rfl, hc⟩
  · rfl
  · have hhigh : isHighHalf c.toNat = false := by
      simp only [isHighHalf, Bool.and_eq_false_iff, decide_eq_false_iff_not]
      omega
    have hlow : isLowHalf c.toNat = false := by
      simp only [isLowHalf, Bool.and_eq_false_iff, decide_eq_false_iff_not]
      omega
    cases pieces with
    | nil => simp [symbols, hhigh, hlow]
    | cons q pieces => cases q <;> simp [symbols, hhigh, hlow]

theorem symbols_of_spells (h : List.Forall₂ Piece.Spells pieces cs) :
    symbols pieces = cs.map .char := by
  induction h with
  | nil => rfl
  | cons hp _ ih => rw [symbols_cons hp, ih, List.map_cons]

end CorpusAnnotator.Json
