import CorpusAnnotator.Proofs.Results
import CorpusAnnotator.Proofs.Text.Utf8

/-! Strict decoding accepts exactly what characters are encoded as. A character in the middle of an
encoding can be told by its first byte, so what stands in front of it and behind it is an encoding
by itself. -/
namespace CorpusAnnotator.Text.Utf8

open Results

variable {bytes run rest : List UInt8} {cs : List Char} {ps : List Piece} {c d : Char}

/-! ## A character among bytes -/

theorem encode_cons (c : Char) (cs : List Char) :
    encode (c :: cs) = String.utf8EncodeChar c ++ encode cs :=
  List.flatMap_cons

theorem encode_append (cs ds : List Char) : encode (cs ++ ds) = encode cs ++ encode ds :=
  List.flatMap_append

/-- The first byte of a character is told apart from all others. -/
theorem exists_utf8EncodeChar_eq (c : Char) :
    ∃ b more, String.utf8EncodeChar c = b :: more ∧ b.IsUTF8FirstByte ∧
      ∀ x ∈ more, ¬ x.IsUTF8FirstByte := by
  cases h : String.utf8EncodeChar c with
  | nil =>
    have hlength := String.length_utf8EncodeChar c
    rw [h] at hlength
    exact absurd hlength.symm (Nat.ne_of_gt (Char.utf8Size_pos c))
  | cons b more =>
    refine ⟨b, more, rfl, ?_, fun x hx hfirst => ?_⟩
    · have hzero : 0 < (String.utf8EncodeChar c).length := by simp [h]
      have hfirst : (String.utf8EncodeChar c)[0].IsUTF8FirstByte :=
        UInt8.isUTF8FirstByte_getElem_utf8EncodeChar.mpr rfl
      simpa [h] using hfirst
    · obtain ⟨i, hi, rfl⟩ := List.getElem_of_mem hx
      have hsucc : i + 1 < (String.utf8EncodeChar c).length := by simpa [h] using hi
      have hinner : (String.utf8EncodeChar c)[i + 1].IsUTF8FirstByte := by simpa [h] using hfirst
      have hzero := UInt8.isUTF8FirstByte_getElem_utf8EncodeChar.mp hinner
      exact absurd hzero (Nat.succ_ne_zero i)

/-- No character's bytes begin those of another. -/
theorem utf8EncodeChar_append_inj
    (h : String.utf8EncodeChar c ++ run = String.utf8EncodeChar d ++ rest) :
    c = d ∧ run = rest := by
  have hpieces := congrArg (piecesFrom .start) h
  rw [piecesFrom_utf8EncodeChar, piecesFrom_utf8EncodeChar] at hpieces
  obtain ⟨hc, -⟩ := List.cons.inj hpieces
  obtain rfl := Piece.char.inj hc
  exact ⟨rfl, List.append_cancel_left h⟩

/-- In front of a first byte, one character ends and the next one begins. -/
theorem exists_of_encode_eq {b : UInt8} {more : List UInt8} (hb : b.IsUTF8FirstByte)
    (h : encode cs = run ++ b :: more) :
    ∃ before after, cs = before ++ after ∧ run = encode before ∧ b :: more = encode after := by
  induction cs generalizing run with
  | nil => cases run <;> cases h
  | cons d cs ih =>
    rw [encode_cons] at h
    rcases List.append_eq_append_iff.mp h with ⟨run', rfl, hmore⟩ | ⟨tail, hd, hmore⟩
    · -- the run goes on behind the character
      obtain ⟨before, after, rfl, rfl, hafter⟩ := ih hmore
      exact ⟨d :: before, after, rfl, (encode_cons d before).symm, hafter⟩
    · -- the run ends within the character, which it can do only at one of its ends
      cases run with
      | nil => exact ⟨[], d :: cs, rfl, rfl, h.symm.trans (encode_cons d cs).symm⟩
      | cons r run =>
        cases tail with
        | nil =>
          refine ⟨[d], cs, rfl, ?_, hmore⟩
          rw [encode_cons, hd, List.append_nil]
          exact (List.append_nil _).symm
        | cons x tail =>
          obtain ⟨b', inner, hd', -, hinner⟩ := exists_utf8EncodeChar_eq d
          cases hmore
          rw [hd] at hd'
          cases hd'
          exact absurd hb (hinner b (List.mem_append_right run List.mem_cons_self))

/-- Around a character's bytes, an encoding falls into two encodings. -/
theorem encode_eq_around_iff :
    encode cs = run ++ (String.utf8EncodeChar c ++ rest) ↔
      ∃ before after, cs = before ++ c :: after ∧ run = encode before ∧ rest = encode after := by
  constructor
  · intro h
    obtain ⟨b, more, hc, hb, -⟩ := exists_utf8EncodeChar_eq c
    rw [hc] at h
    obtain ⟨before, after, rfl, rfl, hafter⟩ := exists_of_encode_eq hb h
    have hafter : String.utf8EncodeChar c ++ rest = encode after := by
      rw [hc]
      exact hafter
    cases after with
    | nil =>
      rw [hc] at hafter
      cases hafter
    | cons d after =>
      obtain ⟨rfl, rfl⟩ := utf8EncodeChar_append_inj hafter
      exact ⟨before, after, rfl, rfl, rfl⟩
  · rintro ⟨before, after, rfl, rfl, rfl⟩
    rw [encode_append, encode_cons]

/-! ## Bytes that are decoded -/

theorem collect_eq_ok_iff {index : Nat} : collect index ps = .ok cs ↔ ps = cs.map Piece.char := by
  induction ps generalizing index cs with
  | nil =>
    rw [collect]
    cases cs <;> simp
  | cons p ps ih =>
    cases p with
    | char c =>
      rw [collect, map_eq_ok_iff]
      constructor
      · rintro ⟨cs', hcs', rfl⟩
        rw [ih.mp hcs', List.map_cons]
      · intro h
        obtain ⟨c', cs', rfl, hc, hcs'⟩ := List.map_eq_cons_iff.mp h.symm
        obtain rfl := Piece.char.inj hc
        exact ⟨cs', ih.mpr hcs'.symm, rfl⟩
    | broken length cut =>
      rw [collect]
      cases cs <;> simp

variable {read value owed low high : Nat} {state : State}

/-- Inside a character, a byte out of bounds breaks it off. -/
theorem exists_byte_inside
    (h : piecesFrom (.inside read value owed low high) bytes = .char c :: ps) :
    ∃ b rest, bytes = b :: rest ∧ low ≤ b.toNat ∧ b.toNat ≤ high := by
  cases bytes with
  | nil => cases h
  | cons b rest =>
    refine ⟨b, rest, rfl, ?_⟩
    rw [piecesFrom_cons, step] at h
    split at h
    · assumption
    · cases h

theorem exists_more_inside
    (h : piecesFrom (.inside read value (owed + 1) low high) bytes = .char c :: ps) :
    ∃ b rest, bytes = b :: rest ∧ low ≤ b.toNat ∧ b.toNat ≤ high ∧
      piecesFrom (.inside (read + 1) (value * 64 + (b.toNat - 0x80)) owed 0x80 0xBF) rest =
        .char c :: ps := by
  obtain ⟨b, rest, rfl, hlow, hhigh⟩ := exists_byte_inside h
  rw [piecesFrom_cons, step, if_pos ⟨hlow, hhigh⟩] at h
  exact ⟨b, rest, rfl, hlow, hhigh, h⟩

theorem exists_last_inside
    (h : piecesFrom (.inside read value 0 low high) bytes = .char c :: ps) :
    ∃ b rest, bytes = b :: rest ∧ low ≤ b.toNat ∧ b.toNat ≤ high ∧
      c = Char.ofNat (value * 64 + (b.toNat - 0x80)) ∧ piecesFrom .start rest = ps := by
  obtain ⟨b, rest, rfl, hlow, hhigh⟩ := exists_byte_inside h
  rw [piecesFrom_cons, step, if_pos ⟨hlow, hhigh⟩] at h
  obtain ⟨hc, hps⟩ := List.cons.inj h
  exact ⟨b, rest, rfl, hlow, hhigh, (Piece.char.inj hc).symm, hps⟩

/-- What a first byte leads to: a character of one byte, a broken one, or the inside of a longer
one, with the bounds on its second byte. -/
theorem lead_cases (b : Nat) :
    (b ≤ 0x7F ∧ lead b = ([.char (Char.ofNat b)], .start)) ∨
    lead b = ([.broken 1 false], .start) ∨
    (0xC2 ≤ b ∧ b < 0xE0 ∧ lead b = ([], .inside 1 (b - 0xC0) 0 0x80 0xBF)) ∨
    (∃ low high, 0xE0 ≤ b ∧ b < 0xF0 ∧ lead b = ([], .inside 1 (b - 0xE0) 1 low high) ∧
      0x80 ≤ low ∧ high ≤ 0xBF ∧ (b = 0xE0 → 0xA0 ≤ low) ∧ (b = 0xED → high ≤ 0x9F)) ∨
    ∃ low high, 0xF0 ≤ b ∧ b ≤ 0xF4 ∧ lead b = ([], .inside 1 (b - 0xF0) 2 low high) ∧
      0x80 ≤ low ∧ high ≤ 0xBF ∧ (b = 0xF0 → 0x90 ≤ low) ∧ (b = 0xF4 → high ≤ 0x8F) := by
  unfold lead
  by_cases h₁ : b < 0x80
  · exact .inl ⟨by omega, if_pos h₁⟩
  by_cases h₂ : b < 0xC2
  · exact .inr (.inl (by rw [if_neg h₁, if_pos h₂]))
  by_cases h₃ : b < 0xE0
  · exact .inr (.inr (.inl ⟨by omega, h₃, by rw [if_neg h₁, if_neg h₂, if_pos h₃]⟩))
  rw [if_neg h₁, if_neg h₂, if_neg h₃]
  by_cases h₄ : b < 0xF0
  · refine .inr (.inr (.inr (.inl ?_)))
    by_cases hlong : b = 0xE0
    · subst hlong
      exact ⟨0xA0, 0xBF, by decide, by decide, rfl, by decide, by decide, by decide, by decide⟩
    by_cases hsurrogate : b = 0xED
    · subst hsurrogate
      exact ⟨0x80, 0x9F, by decide, by decide, rfl, by decide, by decide, by decide, by decide⟩
    · exact ⟨0x80, 0xBF, by omega, h₄, by rw [if_neg hlong, if_neg hsurrogate, if_pos h₄],
        by decide, by decide, fun h => absurd h hlong, fun h => absurd h hsurrogate⟩
  rw [if_neg (by omega), if_neg (by omega), if_neg h₄]
  by_cases h₅ : b ≤ 0xF4
  · refine .inr (.inr (.inr (.inr ?_)))
    by_cases hlong : b = 0xF0
    · subst hlong
      exact ⟨0x90, 0xBF, by decide, by decide, rfl, by decide, by decide, by decide, by decide⟩
    by_cases hend : b = 0xF4
    · subst hend
      exact ⟨0x80, 0x8F, by decide, by decide, rfl, by decide, by decide, by decide, by decide⟩
    · exact ⟨0x80, 0xBF, by omega, h₅, by rw [if_neg hlong, if_pos (by omega)],
        by decide, by decide, fun h => absurd h hlong, fun h => absurd h hend⟩
  · exact .inr (.inl (by rw [if_neg (by omega), if_neg (by omega), if_neg (by omega)]))

/-! ## The bytes of a code point -/

theorem toNat_ofNat {v : Nat} (h : v.isValidChar) : (Char.ofNat v).val.toNat = v := by
  rw [Char.ofNat, dif_pos h]
  rfl

theorem eq_ofNat {b : UInt8} {n : Nat} (h : b.toNat = n) : UInt8.ofNat n = b := by
  rw [← h, UInt8.ofNat_toNat]

theorem utf8EncodeChar_one {a : UInt8} (ha : a.toNat ≤ 0x7F) :
    String.utf8EncodeChar (Char.ofNat a.toNat) = [a] := by
  have hvalid : a.toNat.isValidChar := .inl (by omega)
  simp only [String.utf8EncodeChar, toNat_ofNat hvalid, if_pos ha, UInt8.ofNat_toNat]

theorem utf8EncodeChar_two {a b : UInt8} (ha : 0xC2 ≤ a.toNat) (ha' : a.toNat < 0xE0)
    (hb : 0x80 ≤ b.toNat) (hb' : b.toNat ≤ 0xBF) :
    String.utf8EncodeChar (Char.ofNat ((a.toNat - 0xC0) * 64 + (b.toNat - 0x80))) = [a, b] := by
  have hvalid : ((a.toNat - 0xC0) * 64 + (b.toNat - 0x80)).isValidChar := .inl (by omega)
  simp only [String.utf8EncodeChar, toNat_ofNat hvalid]
  rw [if_neg (by omega), if_pos (by omega), eq_ofNat (b := a) (by omega),
    eq_ofNat (b := b) (by omega)]

/-- The bounds on the second byte keep out the numbers of shorter forms and the surrogates. -/
theorem utf8EncodeChar_three {a b c : UInt8} (ha : 0xE0 ≤ a.toNat) (ha' : a.toNat < 0xF0)
    (hb : 0x80 ≤ b.toNat) (hb' : b.toNat ≤ 0xBF) (hlong : a.toNat = 0xE0 → 0xA0 ≤ b.toNat)
    (hsurrogate : a.toNat = 0xED → b.toNat ≤ 0x9F) (hc : 0x80 ≤ c.toNat) (hc' : c.toNat ≤ 0xBF) :
    String.utf8EncodeChar (Char.ofNat
      (((a.toNat - 0xE0) * 64 + (b.toNat - 0x80)) * 64 + (c.toNat - 0x80))) = [a, b, c] := by
  have hvalid :
      (((a.toNat - 0xE0) * 64 + (b.toNat - 0x80)) * 64 + (c.toNat - 0x80)).isValidChar := by
    unfold Nat.isValidChar
    omega
  simp only [String.utf8EncodeChar, toNat_ofNat hvalid]
  rw [if_neg (by omega), if_neg (by omega), if_pos (by omega), eq_ofNat (b := a) (by omega),
    eq_ofNat (b := b) (by omega), eq_ofNat (b := c) (by omega)]

/-- The bounds on the second byte keep out the numbers of shorter forms and those past the last code
point. -/
theorem utf8EncodeChar_four {a b c d : UInt8} (ha : 0xF0 ≤ a.toNat) (ha' : a.toNat ≤ 0xF4)
    (hb : 0x80 ≤ b.toNat) (hb' : b.toNat ≤ 0xBF) (hlong : a.toNat = 0xF0 → 0x90 ≤ b.toNat)
    (hend : a.toNat = 0xF4 → b.toNat ≤ 0x8F) (hc : 0x80 ≤ c.toNat) (hc' : c.toNat ≤ 0xBF)
    (hd : 0x80 ≤ d.toNat) (hd' : d.toNat ≤ 0xBF) :
    String.utf8EncodeChar (Char.ofNat
      ((((a.toNat - 0xF0) * 64 + (b.toNat - 0x80)) * 64 + (c.toNat - 0x80)) * 64 +
        (d.toNat - 0x80))) = [a, b, c, d] := by
  have hvalid : ((((a.toNat - 0xF0) * 64 + (b.toNat - 0x80)) * 64 + (c.toNat - 0x80)) * 64 +
      (d.toNat - 0x80)).isValidChar := by
    unfold Nat.isValidChar
    omega
  simp only [String.utf8EncodeChar, toNat_ofNat hvalid]
  rw [if_neg (by omega), if_neg (by omega), if_neg (by omega), eq_ofNat (b := a) (by omega),
    eq_ofNat (b := b) (by omega), eq_ofNat (b := c) (by omega), eq_ofNat (b := d) (by omega)]

/-- What is read as a character is its encoding. -/
theorem exists_rest_of_piecesFrom (h : piecesFrom .start bytes = .char c :: ps) :
    ∃ rest, bytes = String.utf8EncodeChar c ++ rest ∧ piecesFrom .start rest = ps := by
  cases bytes with
  | nil => cases h
  | cons a rest =>
    rw [piecesFrom_cons, step] at h
    rcases lead_cases a.toNat with ⟨ha, hlead⟩ | hlead | ⟨ha, ha', hlead⟩ |
      ⟨low, high, ha, ha', hlead, hlow, hhigh, hlong, hsurrogate⟩ |
      ⟨low, high, ha, ha', hlead, hlow, hhigh, hlong, hend⟩
    · simp only [hlead] at h
      obtain ⟨hc, hps⟩ := List.cons.inj h
      obtain rfl := Piece.char.inj hc
      exact ⟨rest, by rw [utf8EncodeChar_one ha]; rfl, hps⟩
    · rw [hlead] at h
      cases h
    · simp only [hlead, List.nil_append] at h
      obtain ⟨b, rest, rfl, hb, hb', hchar, hps⟩ := exists_last_inside h
      exact ⟨rest, by rw [hchar, utf8EncodeChar_two ha ha' hb hb']; rfl, hps⟩
    · simp only [hlead, List.nil_append] at h
      obtain ⟨b, rest, rfl, hb, hb', h⟩ := exists_more_inside h
      obtain ⟨c, rest, rfl, hc, hc', hchar, hps⟩ := exists_last_inside h
      refine ⟨rest, ?_, hps⟩
      rw [hchar, utf8EncodeChar_three ha ha' (by omega) (by omega) (by omega) (by omega) hc hc']
      rfl
    · simp only [hlead, List.nil_append] at h
      obtain ⟨b, rest, rfl, hb, hb', h⟩ := exists_more_inside h
      obtain ⟨c, rest, rfl, hc, hc', h⟩ := exists_more_inside h
      obtain ⟨d, rest, rfl, hd, hd', hchar, hps⟩ := exists_last_inside h
      refine ⟨rest, ?_, hps⟩
      rw [hchar, utf8EncodeChar_four ha ha' (by omega) (by omega) (by omega) (by omega) hc hc' hd
        hd']
      rfl

/-- Inside a character, more bytes or the end of the input make a piece. -/
theorem piecesFrom_inside_ne_nil (bytes : List UInt8) :
    piecesFrom (.inside read value owed low high) bytes ≠ [] := by
  induction bytes generalizing read value owed low high with
  | nil => exact List.cons_ne_nil _ _
  | cons b rest ih =>
    rw [piecesFrom_cons, step]
    split
    · cases owed with
      | zero => exact List.cons_ne_nil _ _
      | succ owed => exact ih
    · exact List.cons_ne_nil _ _

theorem pieces_eq_nil_iff : pieces bytes = [] ↔ bytes = [] := by
  constructor
  · intro h
    cases bytes with
    | nil => rfl
    | cons b rest =>
      rw [pieces, piecesFrom_cons, step, List.append_eq_nil_iff] at h
      obtain ⟨hnone, hrest⟩ := h
      rcases lead_cases b.toNat with ⟨-, hlead⟩ | hlead | ⟨-, -, hlead⟩ |
        ⟨low, high, -, -, hlead, -⟩ | ⟨low, high, -, -, hlead, -⟩
      · rw [hlead] at hnone
        cases hnone
      · rw [hlead] at hnone
        cases hnone
      · rw [hlead] at hrest
        exact absurd hrest (piecesFrom_inside_ne_nil rest)
      · rw [hlead] at hrest
        exact absurd hrest (piecesFrom_inside_ne_nil rest)
      · rw [hlead] at hrest
        exact absurd hrest (piecesFrom_inside_ne_nil rest)
  · rintro rfl
    rfl

theorem eq_encode_of_pieces (h : pieces bytes = cs.map Piece.char) : bytes = encode cs := by
  induction cs generalizing bytes with
  | nil => exact pieces_eq_nil_iff.mp h
  | cons c cs ih =>
    obtain ⟨rest, rfl, hrest⟩ := exists_rest_of_piecesFrom h
    rw [ih hrest, encode_cons]

/-- Strict decoding accepts the encodings of characters, and nothing else. -/
theorem decode_eq_ok_iff : decode bytes = .ok cs ↔ bytes = encode cs := by
  constructor
  · intro h
    exact eq_encode_of_pieces (collect_eq_ok_iff.mp h)
  · rintro rfl
    exact decode_encode cs

end CorpusAnnotator.Text.Utf8
