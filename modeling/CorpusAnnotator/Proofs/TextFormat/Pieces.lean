import CorpusAnnotator.Proofs.Text.Utf8Runs
import CorpusAnnotator.Proofs.TextFormat.Layout
import CorpusAnnotator.TextFormat.Literal

/-! What stands between the quotes of a literal, piece by piece: characters that stand for
themselves and bytes that are escaped. A text is read into pieces in one way at most, and the bytes
of a literal are those of its pieces. -/
namespace CorpusAnnotator.TextFormat

open Results
open Text (Taken)

variable {quote c : Char} {text rest form : List Char} {byte : UInt8}

/-! ## Pieces -/

/-- A character as it is, or a byte that is escaped. -/
inductive Piece where
  | raw (c : Char)
  | escaped (byte : UInt8)
  deriving Repr, DecidableEq

def Piece.bytes : Piece → List UInt8
  | raw c => String.utf8EncodeChar c
  | escaped byte => [byte]

/-- The number that octal digits make, behind those that made `value`. -/
def octalValue (value : Nat) (digits : List Nat) : Nat :=
  digits.foldl (fun v d => 8 * v + d) value

/-- A text that does not go on with an octal digit. -/
def NoOctalDigit (text : List Char) : Prop :=
  ∀ d < 8, text.head? ≠ some d.digitChar

/-- An escape of one byte, without its backslash, in front of `rest`. Octal digits are taken as long
as there are any, but no more than three. -/
inductive EscapeBefore (rest : List Char) : UInt8 → List Char → Prop where
  | named {c : Char} {byte : UInt8} : (c, byte) ∈ namedEscapes → EscapeBefore rest byte [c]
  | hex {m n : Nat} {a b : Char} : m < 16 → n < 16 → a ∈ hexDigitChars m → b ∈ hexDigitChars n →
      EscapeBefore rest (UInt8.ofNat (16 * m + n)) ['x', a, b]
  | octal {digits : List Nat} : digits ≠ [] → digits.length ≤ 3 → (∀ d ∈ digits, d < 8) →
      digits.length = 3 ∨ NoOctalDigit rest → octalValue 0 digits < 256 →
      EscapeBefore rest (UInt8.ofNat (octalValue 0 digits)) (digits.map Nat.digitChar)

/-- A text from behind an opening quote, its pieces up to the closing quote, and the rest behind
that. -/
inductive Reads (quote : Char) : List Char → List Piece → List Char → Prop where
  | close {rest : List Char} : Reads quote (quote :: rest) [] rest
  | raw {c : Char} {text rest : List Char} {pieces : List Piece} : c ≠ '\n' → c ≠ '\\' →
      c ≠ quote → Reads quote text pieces rest → Reads quote (c :: text) (.raw c :: pieces) rest
  | escaped {byte : UInt8} {form text rest : List Char} {pieces : List Piece} :
      EscapeBefore text byte form → Reads quote text pieces rest →
      Reads quote ('\\' :: (form ++ text)) (.escaped byte :: pieces) rest

/-! ## Digits -/

theorem octalDigit?_ofNat :
    ∀ k < 56, ∀ d ∈ octalDigit? (Char.ofNat k), d < 8 ∧ Char.ofNat k = d.digitChar := by
  decide

theorem hexDigit?_ofNat :
    ∀ k < 103, ∀ n ∈ hexDigit? (Char.ofNat k), n < 16 ∧ Char.ofNat k ∈ hexDigitChars n := by
  decide +kernel

theorem toNat_lt_of_hexDigit? {n : Nat} (h : hexDigit? c = some n) : c.toNat < 103 := by
  unfold hexDigit? at h
  split at h
  · next hdigit =>
    simp only [Char.isDigit, Bool.and_eq_true, decide_eq_true_eq] at hdigit
    have hlast : c.toNat ≤ 57 := hdigit.2
    omega
  · split at h
    · next hlower => exact Nat.lt_succ_of_le hlower.2
    · split at h
      · next hupper =>
        have hlast : c.toNat ≤ 70 := hupper.2
        omega
      · cases h

theorem hexDigit?_of_mem {n : Nat} (h : n < 16) :
    ∀ c ∈ hexDigitChars n, hexDigit? c = some n := by
  have hdigits : ∀ n < 16, hexDigit? n.digitChar = some n ∧
      hexDigit? n.digitChar.toUpper = some n := by decide
  obtain ⟨hlower, hupper⟩ := hdigits n h
  exact List.forall_mem_cons.mpr ⟨hlower, List.forall_mem_singleton.mpr hupper⟩

theorem octalDigit?_digitChar {n : Nat} (h : n < 8) : octalDigit? n.digitChar = some n := by
  revert n
  decide

/-- An octal digit starts neither a named nor a hexadecimal escape. -/
theorem digitChar_octal {n : Nat} (h : n < 8) :
    namedEscape? n.digitChar = none ∧ n.digitChar ≠ 'x' := by
  revert n
  decide

theorem namedEscape?_of_mem : ∀ entry ∈ namedEscapes, namedEscape? entry.1 = some entry.2 := by
  decide

theorem octalDigit?_eq_some_iff {d : Nat} : octalDigit? c = some d ↔ d < 8 ∧ c = d.digitChar := by
  constructor
  · intro h
    have hlast : c.toNat < 56 := by
      unfold octalDigit? at h
      split at h
      · next hrange => exact Nat.lt_succ_of_le hrange.2
      · cases h
    have hdigit := octalDigit?_ofNat c.toNat hlast
    rw [Char.ofNat_toNat] at hdigit
    exact hdigit d h
  · rintro ⟨hd, rfl⟩
    exact octalDigit?_digitChar hd

theorem hexDigit?_eq_some_iff {n : Nat} :
    hexDigit? c = some n ↔ n < 16 ∧ c ∈ hexDigitChars n := by
  constructor
  · intro h
    have hdigit := hexDigit?_ofNat c.toNat (toNat_lt_of_hexDigit? h)
    rw [Char.ofNat_toNat] at hdigit
    exact hdigit n h
  · rintro ⟨hn, hc⟩
    exact hexDigit?_of_mem hn c hc

theorem namedEscape?_eq_some_iff : namedEscape? c = some byte ↔ (c, byte) ∈ namedEscapes := by
  constructor
  · intro h
    unfold namedEscape? at h
    -- one case for each name, and the last for all other characters
    repeat' split at h
    all_goals first
      | cases h; subst_vars; decide
      | cases h
  · exact namedEscape?_of_mem (c, byte)

/-! ## Escapes -/

theorem octalValue_cons (value d : Nat) (digits : List Nat) :
    octalValue value (d :: digits) = octalValue (8 * value + d) digits := rfl

/-- Digits are taken up to the first character that is none, or until there are enough. -/
theorem exists_octalDigits_eq (more value : Nat) (text : List Char) :
    ∃ digits rest, octalDigits more value text = (octalValue value digits, rest) ∧
      text = digits.map Nat.digitChar ++ rest ∧ digits.length ≤ more ∧ (∀ d ∈ digits, d < 8) ∧
      (digits.length = more ∨ NoOctalDigit rest) := by
  induction more generalizing value text with
  | zero => exact ⟨[], text, rfl, rfl, Nat.le_refl 0, by simp, .inl rfl⟩
  | succ more ih =>
    cases text with
    | nil => exact ⟨[], [], rfl, rfl, Nat.zero_le _, by simp, .inr fun d _ h => by cases h⟩
    | cons c text =>
      cases hc : octalDigit? c with
      | some d =>
        obtain ⟨digits, rest, hread, rfl, hlength, hdigits, hend⟩ := ih (8 * value + d) text
        obtain ⟨hd, rfl⟩ := octalDigit?_eq_some_iff.mp hc
        refine ⟨d :: digits, rest, ?_, rfl, Nat.succ_le_succ hlength,
          List.forall_mem_cons.mpr ⟨hd, hdigits⟩, hend.imp_left (congrArg Nat.succ)⟩
        rw [octalDigits, hc]
        exact hread
      | none =>
        refine ⟨[], c :: text, by rw [octalDigits, hc]; rfl, rfl, Nat.zero_le _, by simp, .inr ?_⟩
        intro d hd h
        rw [octalDigit?_eq_some_iff.mpr ⟨hd, Option.some.inj h⟩] at hc
        cases hc

theorem octalDigits_of_digits {more value : Nat} {digits : List Nat}
    (hlength : digits.length ≤ more) (hdigits : ∀ d ∈ digits, d < 8)
    (hend : digits.length = more ∨ NoOctalDigit rest) :
    octalDigits more value (digits.map Nat.digitChar ++ rest) =
      (octalValue value digits, rest) := by
  induction digits generalizing more value with
  | nil =>
    cases more with
    | zero => rfl
    | succ more =>
      have hend := hend.resolve_left (Nat.succ_ne_zero more).symm
      cases rest with
      | nil => rfl
      | cons c rest =>
        cases hc : octalDigit? c with
        | none => simp only [List.map_nil, List.nil_append, octalDigits, hc]; rfl
        | some d =>
          obtain ⟨hd, rfl⟩ := octalDigit?_eq_some_iff.mp hc
          exact absurd rfl (hend d hd)
  | cons d digits ih =>
    obtain ⟨hd, hdigits⟩ := List.forall_mem_cons.mp hdigits
    cases more with
    | zero => cases hlength
    | succ more =>
      rw [List.map_cons, List.cons_append, octalDigits, octalDigit?_digitChar hd]
      exact ih (Nat.le_of_succ_le_succ hlength) hdigits (hend.imp_left Nat.succ.inj)

/-- What an escape stands for is read, up to where it ends. -/
theorem EscapeBefore.escape (h : EscapeBefore rest byte form) (htext : text = form ++ rest) :
    ∃ hr, escape text = .ok ⟨byte, rest, hr⟩ := by
  subst htext
  cases h with
  | @named c _ h =>
    have hc := namedEscape?_of_mem _ h
    exact ⟨Nat.lt_succ_self _, by simp only [List.cons_append, TextFormat.escape, hc]; rfl⟩
  | @hex m n a b hm hn ha hb =>
    have hx : namedEscape? 'x' = none := by decide
    refine ⟨by simp only [List.length_append, List.length_cons]; omega, ?_⟩
    simp only [List.cons_append, TextFormat.escape, hx, if_true, hexDigit?_of_mem hm a ha,
      hexDigit?_of_mem hn b hb]
    rfl
  | @octal digits hne hlength hdigits hend hvalue =>
    cases digits with
    | nil => exact absurd rfl hne
    | cons d digits =>
      obtain ⟨hd, hdigits⟩ := List.forall_mem_cons.mp hdigits
      obtain ⟨hname, hx⟩ := digitChar_octal hd
      have hread : octalDigits 2 d (digits.map Nat.digitChar ++ rest) =
          (octalValue d digits, rest) :=
        octalDigits_of_digits (Nat.le_of_succ_le_succ hlength) hdigits (hend.imp_left Nat.succ.inj)
      have hvalue : octalValue d digits < 256 := by rwa [octalValue_cons, Nat.zero_add] at hvalue
      rw [octalValue_cons, Nat.zero_add, List.map_cons, List.cons_append]
      refine ⟨by simp only [List.length_append, List.length_cons]; omega, ?_⟩
      simp only [TextFormat.escape, hname, if_neg hx, octalDigit?_digitChar hd, hread,
        if_pos hvalue]

theorem exists_form_of_escape {hr} (h : escape text = .ok ⟨byte, rest, hr⟩) :
    ∃ form, text = form ++ rest ∧ EscapeBefore rest byte form := by
  unfold escape at h
  split at h
  · cases h
  · next c text =>
    split at h
    · next hnamed =>
      cases h
      exact ⟨[c], rfl, .named (namedEscape?_eq_some_iff.mp hnamed)⟩
    · split at h
      · next hx =>
        subst hx
        split at h
        · next a b text =>
          split at h
          · next m n hm hn =>
            cases h
            obtain ⟨hm, ha⟩ := hexDigit?_eq_some_iff.mp hm
            obtain ⟨hn, hb⟩ := hexDigit?_eq_some_iff.mp hn
            exact ⟨['x', a, b], rfl, .hex hm hn ha hb⟩
          · cases h
        · cases h
      · split at h
        · cases h
        · next d hdigit =>
          obtain ⟨hd, rfl⟩ := octalDigit?_eq_some_iff.mp hdigit
          obtain ⟨digits, rest', hread, rfl, hlength, hdigits, hend⟩ :=
            exists_octalDigits_eq 2 d text
          simp only [hread] at h
          split at h
          · next hvalue =>
            cases h
            have hbyte : octalValue 0 (d :: digits) = octalValue d digits := by
              rw [octalValue_cons, Nat.zero_add]
            rw [← hbyte] at hvalue ⊢
            exact ⟨(d :: digits).map Nat.digitChar, rfl, .octal (List.cons_ne_nil d digits)
              (Nat.succ_le_succ hlength) (List.forall_mem_cons.mpr ⟨hd, hdigits⟩)
              (hend.imp_left (congrArg Nat.succ)) hvalue⟩
          · cases h

/-! ## Bodies -/

theorem literalBytes_closing (h : quote ≠ '\n') :
    ∃ hr, literalBytes quote (quote :: rest) = .ok ⟨[], rest, hr⟩ := by
  refine ⟨Nat.lt_succ_self _, ?_⟩
  rw [literalBytes, if_neg h, if_pos rfl]
  rfl

theorem literalBytes_raw {bytes : List UInt8} {h} (hline : c ≠ '\n') (hslash : c ≠ '\\')
    (hquote : c ≠ quote) (hmore : literalBytes quote text = .ok ⟨bytes, rest, h⟩) :
    ∃ hr, literalBytes quote (c :: text) = .ok ⟨String.utf8EncodeChar c ++ bytes, rest, hr⟩ := by
  refine ⟨Nat.lt_succ_of_lt h, ?_⟩
  rw [literalBytes, if_neg hline, if_neg hquote, if_neg hslash, hmore]
  rfl

theorem literalBytes_escaped {after : List Char} {bytes : List UInt8} {h h'} (hq : quote ≠ '\\')
    (hescape : escape text = .ok ⟨byte, after, h⟩)
    (hmore : literalBytes quote after = .ok ⟨bytes, rest, h'⟩) :
    ∃ hr, literalBytes quote ('\\' :: text) = .ok ⟨byte :: bytes, rest, hr⟩ := by
  refine ⟨by simp only [List.length_cons]; omega, ?_⟩
  rw [literalBytes, if_neg (by decide), if_neg hq.symm, if_pos rfl, hescape, ok_bind]
  simp only
  rw [hmore]
  rfl

/-- The bytes of pieces are read up to the closing quote. -/
theorem Reads.literalBytes {pieces : List Piece} (h : Reads quote text pieces rest)
    (hline : quote ≠ '\n') (hslash : quote ≠ '\\') :
    ∃ hr, literalBytes quote text = .ok ⟨pieces.flatMap Piece.bytes, rest, hr⟩ := by
  induction h with
  | close => exact literalBytes_closing hline
  | raw hc hc' hc'' _ ih =>
    obtain ⟨h, hmore⟩ := ih
    exact literalBytes_raw hc hc' hc'' hmore
  | escaped hform _ ih =>
    obtain ⟨h, hmore⟩ := ih
    obtain ⟨h', hescape⟩ := hform.escape rfl
    exact literalBytes_escaped hslash hescape hmore

/-- One step of reading: the closing quote, a character as it is, or an escape. -/
theorem literalBytes_step {bytes : List UInt8} {hr}
    (h : TextFormat.literalBytes quote text = .ok ⟨bytes, rest, hr⟩) :
    (text = quote :: rest ∧ bytes = []) ∨
    (∃ c after more h', text = c :: after ∧ c ≠ '\n' ∧ c ≠ '\\' ∧ c ≠ quote ∧
      TextFormat.literalBytes quote after = .ok ⟨more, rest, h'⟩ ∧
      bytes = String.utf8EncodeChar c ++ more) ∨
    ∃ byte form after more h', text = '\\' :: (form ++ after) ∧ EscapeBefore after byte form ∧
      TextFormat.literalBytes quote after = .ok ⟨more, rest, h'⟩ ∧ bytes = byte :: more := by
  rw [TextFormat.literalBytes.eq_def] at h
  split at h
  · cases h
  · next c text =>
    split at h
    · cases h
    · next hline =>
      split at h
      · next hquote =>
        cases h
        exact .inl ⟨by rw [hquote], rfl⟩
      · next hquote =>
        split at h
        · next hslash =>
          obtain ⟨⟨byte, after, hafter⟩, hescape, h⟩ := bind_eq_ok_iff.mp h
          obtain ⟨⟨more, rest', hrest⟩, hmore, h⟩ := bind_eq_ok_iff.mp h
          cases h
          obtain ⟨form, rfl, hform⟩ := exists_form_of_escape hescape
          exact .inr (.inr ⟨byte, form, after, more, hrest, by rw [hslash], hform, hmore, rfl⟩)
        · next hslash =>
          obtain ⟨⟨more, rest', hrest⟩, hmore, h⟩ := bind_eq_ok_iff.mp h
          cases h
          exact .inr (.inl ⟨c, text, more, hrest, rfl, hline, hslash, hquote, hmore, rfl⟩)

/-- Whatever is read is made of pieces. -/
theorem exists_reads {text : List Char} {bytes : List UInt8} {hr}
    (h : TextFormat.literalBytes quote text = .ok ⟨bytes, rest, hr⟩) :
    ∃ pieces, Reads quote text pieces rest ∧ bytes = pieces.flatMap Piece.bytes := by
  rcases literalBytes_step h with ⟨htext, rfl⟩ |
    ⟨c, after, more, h', htext, hline, hslash, hquote, hmore, rfl⟩ |
    ⟨byte, form, after, more, h', htext, hform, hmore, rfl⟩
  · exact ⟨[], htext ▸ .close, rfl⟩
  · obtain ⟨pieces, hpieces, rfl⟩ := exists_reads hmore
    exact ⟨.raw c :: pieces, htext ▸ .raw hline hslash hquote hpieces, rfl⟩
  · obtain ⟨pieces, hpieces, rfl⟩ := exists_reads hmore
    exact ⟨.escaped byte :: pieces, htext ▸ .escaped hform hpieces, rfl⟩
termination_by text.length
decreasing_by
  all_goals simp only [htext, List.length_cons, List.length_append]
  all_goals omega

/-! ## Texts -/

/-- A literal is read where its pieces are, and their bytes encode its text. -/
theorem literal_eq_ok_iff {cs : List Char} (hline : quote ≠ '\n') (hslash : quote ≠ '\\') :
    (∃ hr, literal quote text = .ok ⟨String.ofList cs, rest, hr⟩) ↔
      ∃ pieces, Reads quote text pieces rest ∧
        pieces.flatMap Piece.bytes = Text.Utf8.encode cs := by
  constructor
  · rintro ⟨hr, h⟩
    obtain ⟨⟨bytes, rest', hrest⟩, hbytes, h⟩ := bind_eq_ok_iff.mp h
    obtain ⟨pieces, hpieces, rfl⟩ := exists_reads hbytes
    cases hdecode : Text.Utf8.decode (pieces.flatMap Piece.bytes) with
    | error e =>
      rw [hdecode] at h
      cases h
    | ok cs' =>
      rw [hdecode] at h
      obtain ⟨hcs, hrest⟩ := Taken.mk.inj (Except.ok.inj h)
      rw [String.ofList_injective hcs] at hdecode
      exact ⟨pieces, hrest ▸ hpieces, Text.Utf8.decode_eq_ok_iff.mp hdecode⟩
  · rintro ⟨pieces, hpieces, hencode⟩
    obtain ⟨hr, hbytes⟩ := hpieces.literalBytes hline hslash
    refine ⟨hr, ?_⟩
    rw [literal, hbytes, ok_bind]
    simp only [Text.Utf8.decode_eq_ok_iff.mpr hencode]
    rfl

/-! ## One way of reading -/

theorem EscapeBefore.unique {rest' form' : List Char} {byte' : UInt8}
    (h : EscapeBefore rest byte form) (h' : EscapeBefore rest' byte' form')
    (htext : form ++ rest = form' ++ rest') : byte = byte' ∧ rest = rest' := by
  obtain ⟨hr, hescape⟩ := h.escape rfl
  obtain ⟨hr', hescape'⟩ := h'.escape htext
  rw [hescape] at hescape'
  cases hescape'
  exact ⟨rfl, rfl⟩

/-- A text has one way of being read, since each piece is told by its first characters. -/
theorem Reads.unique {pieces pieces' : List Piece} {rest' : List Char}
    (h : Reads quote text pieces rest) (h' : Reads quote text pieces' rest')
    (hslash : quote ≠ '\\') : pieces = pieces' ∧ rest = rest' := by
  induction h generalizing pieces' rest' with
  | close =>
    cases h' with
    | close => exact ⟨rfl, rfl⟩
    | raw _ _ hquote _ => exact absurd rfl hquote
    | escaped _ _ => exact absurd rfl hslash
  | @raw c text rest pieces hline hback hquote _ ih =>
    cases h' with
    | close => exact absurd rfl hquote
    | raw _ _ _ hmore =>
      obtain ⟨rfl, rfl⟩ := ih hmore
      exact ⟨rfl, rfl⟩
    | escaped _ _ => exact absurd rfl hback
  | @escaped byte form text rest pieces hform _ ih =>
    generalize htext : '\\' :: (form ++ text) = whole at h'
    cases h' with
    | close => exact absurd (List.cons.inj htext).1.symm hslash
    | raw _ hback _ _ => exact absurd (List.cons.inj htext).1.symm hback
    | escaped hform' hmore =>
      obtain ⟨rfl, rfl⟩ := hform.unique hform' (List.cons.inj htext).2
      obtain ⟨rfl, rfl⟩ := ih hmore
      exact ⟨rfl, rfl⟩

end CorpusAnnotator.TextFormat
