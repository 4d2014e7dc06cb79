import CorpusAnnotator.Text.Utf8

/-! What is encoded is decoded again: the bytes of characters are read as one piece for each. -/
namespace CorpusAnnotator.Text.Utf8

variable {rest : List UInt8}

theorem piecesFrom_cons (state : State) (b : UInt8) (rest : List UInt8) :
    piecesFrom state (b :: rest) =
      (step state b.toNat).1 ++ piecesFrom (step state b.toNat).2 rest := by
  cases state <;> rfl

/-! ## First bytes -/

theorem lead_one {v : Nat} (h : v ≤ 0x7F) : lead v = ([.char (Char.ofNat v)], .start) :=
  if_pos (by omega)

theorem lead_two {a : Nat} (h : 2 ≤ a) (h' : a < 0x20) :
    lead (a + 0xC0) = ([], .inside 1 a 0 0x80 0xBF) := by
  unfold lead
  rw [if_neg (by omega), if_neg (by omega), if_pos (by omega), Nat.add_sub_cancel]

/-- The second of three bytes is bounded from below where the first one gives nothing, and from
above where it leads to surrogates. -/
theorem lead_three {a b : Nat} (h : a < 0x10) (hb : 0x80 ≤ b) (hb' : b ≤ 0xBF)
    (hlong : a = 0 → 0xA0 ≤ b) (hsurrogate : a = 0xD → b ≤ 0x9F) :
    ∃ low high, lead (a + 0xE0) = ([], .inside 1 a 1 low high) ∧ low ≤ b ∧ b ≤ high := by
  unfold lead
  rw [if_neg (by omega), if_neg (by omega), if_neg (by omega)]
  by_cases ha : a = 0
  · subst ha
    exact ⟨0xA0, 0xBF, rfl, hlong rfl, hb'⟩
  by_cases ha' : a = 0xD
  · subst ha'
    exact ⟨0x80, 0x9F, rfl, hb, hsurrogate rfl⟩
  rw [if_neg (by omega), if_neg (by omega), if_pos (by omega), Nat.add_sub_cancel]
  exact ⟨0x80, 0xBF, rfl, hb, hb'⟩

/-- The second of four bytes is bounded from below where the first one gives nothing, and from above
where it leads to the end of the code points. -/
theorem lead_four {a b : Nat} (h : a ≤ 4) (hb : 0x80 ≤ b) (hb' : b ≤ 0xBF)
    (hlong : a = 0 → 0x90 ≤ b) (hend : a = 4 → b ≤ 0x8F) :
    ∃ low high, lead (a + 0xF0) = ([], .inside 1 a 2 low high) ∧ low ≤ b ∧ b ≤ high := by
  unfold lead
  rw [if_neg (by omega), if_neg (by omega), if_neg (by omega), if_neg (by omega),
    if_neg (by omega), if_neg (by omega)]
  by_cases ha : a = 0
  · subst ha
    exact ⟨0x90, 0xBF, rfl, hlong rfl, hb'⟩
  by_cases ha' : a = 4
  · subst ha'
    exact ⟨0x80, 0x8F, rfl, hb, hend rfl⟩
  rw [if_neg (by omega), if_pos (by omega), Nat.add_sub_cancel]
  exact ⟨0x80, 0xBF, rfl, hb, hb'⟩

theorem piecesFrom_lead {a : Nat} {state : State} (ha : a < 256) (h : lead a = ([], state)) :
    piecesFrom .start (UInt8.ofNat a :: rest) = piecesFrom state rest := by
  rw [piecesFrom_cons, UInt8.toNat_ofNat', Nat.mod_eq_of_lt ha, step, h, List.nil_append]

/-! ## Further bytes -/

variable {read value owed low high n : Nat}

/-- A byte that is not the first holds six bits. -/
theorem toNat_tail (n : Nat) : (UInt8.ofNat (n % 0x40 + 0x80)).toNat = n % 0x40 + 0x80 := by
  rw [UInt8.toNat_ofNat']
  omega

theorem piecesFrom_more (h : low ≤ n % 0x40 + 0x80) (h' : n % 0x40 + 0x80 ≤ high) :
    piecesFrom (.inside read value (owed + 1) low high) (UInt8.ofNat (n % 0x40 + 0x80) :: rest) =
      piecesFrom (.inside (read + 1) (value * 64 + n % 0x40) owed 0x80 0xBF) rest := by
  rw [piecesFrom_cons, toNat_tail]
  simp only [step, if_pos (And.intro h h'), Nat.add_sub_cancel, List.nil_append]

theorem piecesFrom_last (h : low ≤ n % 0x40 + 0x80) (h' : n % 0x40 + 0x80 ≤ high) :
    piecesFrom (.inside read value 0 low high) (UInt8.ofNat (n % 0x40 + 0x80) :: rest) =
      .char (Char.ofNat (value * 64 + n % 0x40)) :: piecesFrom .start rest := by
  rw [piecesFrom_cons, toNat_tail]
  simp only [step, if_pos (And.intro h h'), Nat.add_sub_cancel, List.cons_append, List.nil_append]

/-! ## Characters -/

theorem piecesFrom_utf8EncodeChar (c : Char) (rest : List UInt8) :
    piecesFrom .start (String.utf8EncodeChar c ++ rest) = .char c :: piecesFrom .start rest := by
  have hvalid : c.toNat < 0xD800 ∨ 0xDFFF < c.toNat ∧ c.toNat < 0x110000 := c.valid
  have hofNat : Char.ofNat c.toNat = c := Char.ofNat_toNat c
  have hvalue : c.val.toNat = c.toNat := rfl
  unfold String.utf8EncodeChar
  simp only [hvalue]
  -- one case for each number of bytes; that a character is no surrogate and no more than the last
  -- code point is what the bounds on a second byte ask for
  generalize c.toNat = v at hvalid hofNat
  by_cases h₁ : v ≤ 0x7F
  · rw [if_pos h₁, List.cons_append, List.nil_append, piecesFrom_cons, UInt8.toNat_ofNat',
      Nat.mod_eq_of_lt (by omega), step, lead_one h₁, hofNat]
    rfl
  rw [if_neg h₁]
  by_cases h₂ : v ≤ 0x7FF
  · have hlead := lead_two (a := v / 64 % 0x20) (by omega) (by omega)
    have hv : v / 64 % 0x20 * 64 + v % 0x40 = v := by omega
    rw [if_pos h₂, List.cons_append, piecesFrom_lead (by omega) hlead, List.cons_append,
      piecesFrom_last (by omega) (by omega), hv, hofNat, List.nil_append]
  rw [if_neg h₂]
  by_cases h₃ : v ≤ 0xFFFF
  · obtain ⟨low, high, hlead, hlow, hhigh⟩ :=
      lead_three (a := v / 4096 % 0x10) (b := v / 64 % 0x40 + 0x80) (by omega) (by omega) (by omega)
        (by omega) (by omega)
    have hv : (v / 4096 % 0x10 * 64 + v / 64 % 0x40) * 64 + v % 0x40 = v := by omega
    rw [if_pos h₃, List.cons_append, piecesFrom_lead (by omega) hlead, List.cons_append,
      piecesFrom_more hlow hhigh, List.cons_append, piecesFrom_last (by omega) (by omega), hv,
      hofNat, List.nil_append]
  · obtain ⟨low, high, hlead, hlow, hhigh⟩ :=
      lead_four (a := v / 262144 % 0x08) (b := v / 4096 % 0x40 + 0x80) (by omega) (by omega)
        (by omega) (by omega) (by omega)
    have hv : ((v / 262144 % 0x08 * 64 + v / 4096 % 0x40) * 64 + v / 64 % 0x40) * 64 + v % 0x40 =
        v := by omega
    rw [if_neg h₃, List.cons_append, piecesFrom_lead (by omega) hlead, List.cons_append,
      piecesFrom_more hlow hhigh, List.cons_append, piecesFrom_more (by omega) (by omega),
      List.cons_append, piecesFrom_last (by omega) (by omega), hv, hofNat, List.nil_append]

theorem pieces_encode (cs : List Char) : pieces (encode cs) = cs.map Piece.char := by
  induction cs with
  | nil => rfl
  | cons c cs ih =>
    show piecesFrom .start (String.utf8EncodeChar c ++ encode cs) = _
    rw [piecesFrom_utf8EncodeChar]
    exact congrArg (Piece.char c :: ·) ih

theorem collect_map_char (cs : List Char) (index : Nat) :
    collect index (cs.map Piece.char) = .ok cs := by
  induction cs generalizing index with
  | nil => rfl
  | cons c cs ih =>
    rw [List.map_cons, collect, ih]
    rfl

/-- Strict decoding gives back the characters that were encoded. -/
theorem decode_encode (cs : List Char) : decode (encode cs) = .ok cs := by
  rw [decode, pieces_encode, collect_map_char]

/-- Lenient decoding does so, too. -/
theorem decodeLenient_encode (cs : List Char) : decodeLenient (encode cs) = cs := by
  rw [decodeLenient, pieces_encode, List.map_map]
  exact List.map_id cs

theorem length_encode_le (cs : List Char) : (encode cs).length ≤ 4 * cs.length := by
  induction cs with
  | nil => exact Nat.le_refl 0
  | cons c cs ih =>
    have hc := Char.utf8Size_le_four c
    rw [encode, List.flatMap_cons, List.length_append, String.length_utf8EncodeChar, ← encode,
      List.length_cons]
    omega

/-- The characters of a string are encoded as the bytes it consists of. -/
theorem length_encode_toList (s : String) : (encode s.toList).length = s.utf8ByteSize := by
  have hbytes : s.toList.utf8Encode = s.toByteArray := by
    rw [← String.toByteArray_ofList, String.ofList_toList]
  rw [← List.size_toByteArray]
  exact congrArg ByteArray.size hbytes

end CorpusAnnotator.Text.Utf8
