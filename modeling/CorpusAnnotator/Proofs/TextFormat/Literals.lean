import CorpusAnnotator.Proofs.TextFormat.Pieces

/-! However the characters of a literal are written, reading it gives them back. -/
namespace CorpusAnnotator.TextFormat

variable {quote : Char} {rest : List Char}

/-- One of the ways of writing a byte ends by itself, whatever stands behind it. -/
theorem EscapeForm.before {byte : UInt8} {form : List Char} (h : EscapeForm byte form)
    (rest : List Char) : EscapeBefore rest byte form := by
  cases h with
  | named h => exact .named h
  | hex hm hn ha hb => exact .hex hm hn ha hb
  | @octal a b c ha hb hc =>
    have hvalue : octalValue 0 [a, b, c] = 64 * a + 8 * b + c := by
      simp only [octalValue, List.foldl_cons, List.foldl_nil]
      omega
    have hdigits : ∀ d ∈ [a, b, c], d < 8 := by
      simp only [List.forall_mem_cons, List.not_mem_nil, false_implies, implies_true, and_true]
      exact ⟨by omega, hb, hc⟩
    -- the first of the three digits is below four, so together they make a byte
    have hbyte : octalValue 0 [a, b, c] < 256 := by omega
    have hoctal : EscapeBefore rest _ _ :=
      .octal (List.cons_ne_nil a [b, c]) (Nat.le_refl 3) hdigits (.inl rfl) hbyte
    rw [hvalue] at hoctal
    exact hoctal

theorem Escapes.reads {bytes : List UInt8} {form text : List Char} {pieces : List Piece}
    (hform : Escapes bytes form) (hmore : Reads quote text pieces rest) :
    Reads quote (form ++ text) (bytes.map .escaped ++ pieces) rest := by
  induction hform with
  | nil => exact hmore
  | @cons byte bytes form forms hbyte _ ih =>
    rw [List.cons_append, List.append_assoc]
    exact .escaped (hbyte.before _) ih

theorem flatMap_bytes_map_escaped (bytes : List UInt8) :
    (bytes.map Piece.escaped).flatMap Piece.bytes = bytes := by
  induction bytes with
  | nil => rfl
  | cons byte bytes ih => exact congrArg (byte :: ·) ih

theorem LiteralBody.exists_reads {cs body : List Char} (hbody : LiteralBody quote cs body)
    (rest : List Char) :
    ∃ pieces, Reads quote (body ++ quote :: rest) pieces rest ∧
      pieces.flatMap Piece.bytes = Text.Utf8.encode cs := by
  -- on the way of writing, not on the characters: one of them may stand for itself or for many
  induction hbody with
  | nil => exact ⟨[], .close, rfl⟩
  | @raw c cs text hc hc' hc'' _ ih =>
    obtain ⟨pieces, hpieces, hbytes⟩ := ih
    exact ⟨.raw c :: pieces, .raw hc hc' hc'' hpieces,
      by rw [List.flatMap_cons, hbytes, Text.Utf8.encode_cons]; rfl⟩
  | @escaped c cs form text hform _ ih =>
    obtain ⟨pieces, hpieces, hbytes⟩ := ih
    refine ⟨_, by rw [List.append_assoc]; exact hform.reads hpieces, ?_⟩
    rw [List.flatMap_append, flatMap_bytes_map_escaped, hbytes, Text.Utf8.encode_cons]

/-- The characters of a literal are read up to its closing quote. -/
theorem LiteralBody.literal {cs body : List Char} (hbody : LiteralBody quote cs body)
    (hline : quote ≠ '\n') (hslash : quote ≠ '\\') (rest : List Char) :
    ∃ hr, literal quote (body ++ quote :: rest) = .ok ⟨String.ofList cs, rest, hr⟩ :=
  (literal_eq_ok_iff hline hslash).mpr (hbody.exists_reads rest)

end CorpusAnnotator.TextFormat
