import CorpusAnnotator.Proofs.TextFormat.Lexing

/-! The text of a literal. Its characters and its escaped bytes are decoded together, which comes to
the same as decoding each maximal run of escaped bytes by itself: no character is made of bytes from
both sides of one that stands for itself. -/
namespace CorpusAnnotator.TextFormat

open Results Text

variable {quote c : Char} {text rest cs : List Char} {run : List UInt8} {pieces tail : List Piece}

/-! ## What is spelled -/

/-- What pieces spell: a run of escaped bytes, which may be empty, is decoded by itself, up to the
next character that stands for itself. -/
inductive Spells : List Piece → List Char → Prop where
  | run (cs : List Char) : Spells ((Utf8.encode cs).map .escaped) cs
  | raw {c : Char} {pieces : List Piece} {more : List Char} (cs : List Char) : Spells pieces more →
      Spells ((Utf8.encode cs).map .escaped ++ .raw c :: pieces) (cs ++ c :: more)

theorem flatMap_bytes_append_raw (run : List UInt8) (c : Char) (pieces : List Piece) :
    (run.map Piece.escaped ++ Piece.raw c :: pieces).flatMap Piece.bytes =
      run ++ (String.utf8EncodeChar c ++ pieces.flatMap Piece.bytes) := by
  rw [List.flatMap_append, flatMap_bytes_map_escaped, List.flatMap_cons]
  rfl

theorem Spells.bytes (h : Spells pieces cs) : pieces.flatMap Piece.bytes = Utf8.encode cs := by
  induction h with
  | run cs => exact flatMap_bytes_map_escaped _
  | raw cs _ ih => rw [flatMap_bytes_append_raw, ih, Utf8.encode_append, Utf8.encode_cons]

/-- With a run in front that may go on. -/
theorem spells_of_bytes (run : List UInt8)
    (h : Utf8.encode cs = run ++ pieces.flatMap Piece.bytes) :
    Spells (run.map .escaped ++ pieces) cs := by
  induction pieces generalizing run cs with
  | nil =>
    rw [List.flatMap_nil, List.append_nil] at h
    rw [List.append_nil, ← h]
    exact .run cs
  | cons p pieces ih =>
    cases p with
    | raw c =>
      obtain ⟨before, after, rfl, rfl, hafter⟩ := Utf8.encode_eq_around_iff.mp h
      exact .raw before (ih [] hafter.symm)
    | escaped byte =>
      have hmore := ih (run ++ [byte]) (by rw [List.append_assoc]; exact h)
      rwa [List.map_append, List.append_assoc] at hmore

/-- The bytes of pieces are the encoding of what they spell. -/
theorem bytes_eq_encode_iff : pieces.flatMap Piece.bytes = Utf8.encode cs ↔ Spells pieces cs :=
  ⟨fun h => spells_of_bytes [] h.symm, Spells.bytes⟩

/-! ## Maximal runs -/

/-- A list that does not go on with an escaped byte. -/
def NoEscapeAhead (tail : List Piece) : Prop :=
  ∀ byte, tail.head? ≠ some (.escaped byte)

/-- Escaped bytes that stand together, with no other right in front of them or right behind. -/
def MaximalRun (run : List UInt8) (pieces : List Piece) : Prop :=
  run ≠ [] ∧ ∃ before after, pieces = before ++ (run.map .escaped ++ after) ∧
    NoEscapeAhead before.reverse ∧ NoEscapeAhead after

theorem noEscapeAhead_nil : NoEscapeAhead [] :=
  fun _ h => by cases h

theorem noEscapeAhead_raw : NoEscapeAhead (.raw c :: tail) :=
  fun _ h => by cases h

theorem NoEscapeAhead.eq_nil_or_raw (h : NoEscapeAhead tail) :
    tail = [] ∨ ∃ c after, tail = .raw c :: after := by
  cases tail with
  | nil => exact .inl rfl
  | cons p after =>
    cases p with
    | raw c => exact .inr ⟨c, after, rfl⟩
    | escaped byte => exact absurd rfl (h byte)

/-- In front of a character that stands for itself, and at the end, a run is decoded by itself. -/
theorem exists_encode_of_noEscapeAhead (htail : NoEscapeAhead tail)
    (h : Utf8.encode cs = run ++ tail.flatMap Piece.bytes) : ∃ ds, run = Utf8.encode ds := by
  rcases htail.eq_nil_or_raw with rfl | ⟨c, after, rfl⟩
  · exact ⟨cs, by rw [h, List.flatMap_nil, List.append_nil]⟩
  · obtain ⟨ds, _, -, hrun, -⟩ := Utf8.encode_eq_around_iff.mp h
    exact ⟨ds, hrun⟩

theorem Spells.exists_encode (h : Spells pieces cs) (hrun : MaximalRun run pieces) :
    ∃ ds, run = Utf8.encode ds := by
  obtain ⟨-, before, after, rfl, hbefore, hafter⟩ := hrun
  have hbytes := h.bytes
  rw [List.flatMap_append, List.flatMap_append, flatMap_bytes_map_escaped] at hbytes
  rcases hbefore.eq_nil_or_raw with hnil | ⟨c, front, hraw⟩
  · rw [List.reverse_eq_nil_iff.mp hnil] at hbytes
    exact exists_encode_of_noEscapeAhead hafter hbytes.symm
  · -- behind a character that stands for itself, the rest is an encoding again
    rw [List.reverse_eq_cons_iff.mp hraw, List.flatMap_append, List.append_assoc] at hbytes
    have hc : [Piece.raw c].flatMap Piece.bytes = String.utf8EncodeChar c := List.append_nil _
    rw [hc] at hbytes
    obtain ⟨_, more, -, -, hmore⟩ := Utf8.encode_eq_around_iff.mp hbytes.symm
    exact exists_encode_of_noEscapeAhead hafter hmore.symm

theorem maximalRun_in_front (hne : run ≠ []) (htail : NoEscapeAhead tail) :
    MaximalRun run (run.map .escaped ++ tail) :=
  ⟨hne, [], tail, rfl, noEscapeAhead_nil, htail⟩

theorem MaximalRun.behind_raw (h : MaximalRun run pieces) (front : List Piece) :
    MaximalRun run (front ++ .raw c :: pieces) := by
  obtain ⟨hne, before, after, rfl, hbefore, hafter⟩ := h
  refine ⟨hne, front ++ .raw c :: before, after, by simp, ?_, hafter⟩
  rw [List.reverse_append, List.reverse_cons, List.append_assoc]
  rcases hbefore.eq_nil_or_raw with hnil | ⟨d, more, hraw⟩
  · rw [hnil]
    exact noEscapeAhead_raw
  · rw [hraw]
    exact noEscapeAhead_raw

/-- The run in front of what does not go on with one is maximal, unless it is empty. -/
theorem exists_encode_in_front (htail : NoEscapeAhead tail)
    (h : ∀ r, MaximalRun r (run.map .escaped ++ tail) → ∃ ds, r = Utf8.encode ds) :
    ∃ ds, run = Utf8.encode ds := by
  by_cases hne : run = []
  · exact ⟨[], hne⟩
  · exact h run (maximalRun_in_front hne htail)

/-- With a run in front that may go on. -/
theorem exists_spells_of_maximalRuns (run : List UInt8)
    (h : ∀ r, MaximalRun r (run.map .escaped ++ pieces) → ∃ ds, r = Utf8.encode ds) :
    ∃ cs, Spells (run.map .escaped ++ pieces) cs := by
  induction pieces generalizing run with
  | nil =>
    obtain ⟨ds, rfl⟩ := exists_encode_in_front noEscapeAhead_nil h
    exact ⟨ds, by rw [List.append_nil]; exact .run ds⟩
  | cons p pieces ih =>
    cases p with
    | raw c =>
      obtain ⟨more, hmore⟩ := ih [] fun r hr => h r (hr.behind_raw (run.map .escaped))
      obtain ⟨ds, rfl⟩ := exists_encode_in_front noEscapeAhead_raw h
      exact ⟨ds ++ c :: more, .raw ds hmore⟩
    | escaped byte =>
      have hlist : run.map .escaped ++ .escaped byte :: pieces =
          (run ++ [byte]).map .escaped ++ pieces := by simp
      rw [hlist] at h ⊢
      exact ih (run ++ [byte]) h

/-- Pieces spell a text just where each of their maximal runs is UTF-8 by itself. -/
theorem exists_spells_iff :
    (∃ cs, Spells pieces cs) ↔ ∀ run, MaximalRun run pieces → ∃ ds, run = Utf8.encode ds :=
  ⟨fun ⟨_, h⟩ _ hrun => h.exists_encode hrun, exists_spells_of_maximalRuns []⟩

/-! ## Tokens -/

theorem Reads.literal_of_spells (h : Reads quote text pieces rest) (hq : IsQuote quote)
    (hcs : Spells pieces cs) : ∃ hr, literal quote text = .ok ⟨String.ofList cs, rest, hr⟩ :=
  (literal_eq_ok_iff hq.line hq.slash).mpr ⟨pieces, h, hcs.bytes⟩

theorem Reads.literal_of_not_spells (h : Reads quote text pieces rest) (hq : IsQuote quote)
    (hcs : ¬ ∃ cs, Spells pieces cs) : ∃ e, literal quote text = .error (.notUtf8 e) := by
  obtain ⟨hr, hbytes⟩ := h.literalBytes hq.line hq.slash
  rw [literal, hbytes, ok_bind]
  cases hdecode : Utf8.decode (pieces.flatMap Piece.bytes) with
  | ok cs => exact absurd ⟨cs, bytes_eq_encode_iff.mp (Utf8.decode_eq_ok_iff.mp hdecode)⟩ hcs
  | error e => exact ⟨e, rfl⟩

theorem literal_of_not_reads (hq : IsQuote quote)
    (h : ¬ ∃ pieces rest, Reads quote text pieces rest) :
    ∃ cause, literal quote text = .error cause := by
  cases hliteral : literal quote text with
  | error cause => exact ⟨cause, rfl⟩
  | ok taken =>
    obtain ⟨value, rest, hr⟩ := taken
    rw [← String.ofList_toList (s := value)] at hliteral
    obtain ⟨pieces, hpieces, -⟩ := (literal_eq_ok_iff hq.line hq.slash).mp ⟨hr, hliteral⟩
    exact absurd ⟨pieces, rest, hpieces⟩ h

/-- Behind an opening quote, pieces are read in their one way up to the closing quote. They make a
token if each maximal run of escaped bytes is UTF-8 by itself, and the text is refused otherwise. -/
theorem tokensFrom_quoted (hquote : quote = '"' ∨ quote = '\'') (line : Nat) (text : List Char) :
    (∀ pieces rest, Reads quote text pieces rest →
      (∀ pieces' rest', Reads quote text pieces' rest' → pieces' = pieces ∧ rest' = rest) ∧
      ((∃ cs, Spells pieces cs) ↔ ∀ run, MaximalRun run pieces → ∃ ds, run = Utf8.encode ds) ∧
      (∀ cs, Spells pieces cs → tokensFrom line (quote :: text) =
        (tokensFrom line rest).map (⟨.literal (String.ofList cs), line⟩ :: ·)) ∧
      ((¬ ∃ cs, Spells pieces cs) →
        ∃ e, tokensFrom line (quote :: text) = .error ⟨line, .notUtf8 e⟩)) ∧
    ((¬ ∃ pieces rest, Reads quote text pieces rest) →
      ∃ cause, tokensFrom line (quote :: text) = .error ⟨line, cause⟩) := by
  have hq := isQuote_of_eq hquote
  refine ⟨fun pieces rest hpieces => ⟨?_, exists_spells_iff, ?_, ?_⟩, ?_⟩
  · intro pieces' rest' hpieces'
    exact hpieces'.unique hpieces hq.slash
  · intro cs hcs
    obtain ⟨hr, hliteral⟩ := hpieces.literal_of_spells hq hcs
    exact tokensFrom_literal hquote hliteral
  · intro hcs
    obtain ⟨e, hliteral⟩ := hpieces.literal_of_not_spells hq hcs
    exact ⟨e, tokensFrom_literal_error hquote hliteral⟩
  · intro hpieces
    obtain ⟨cause, hliteral⟩ := literal_of_not_reads hq hpieces
    exact ⟨cause, tokensFrom_literal_error hquote hliteral⟩

theorem tokensFrom_quoted_mixed :
    ('"' = '"' ∨ '"' = '\'') ∧
    tokensFrom 4 "\"'#\\18\\xC3\\251é\"".toList = .ok [⟨.literal "'#\x018éé", 4⟩] := by
  refine ⟨.inl rfl, ?_⟩
  -- the digit eight ends an octal number, and two escapes make one character
  have hshort : EscapeBefore ['8', '\\', 'x', 'C', '3', '\\', '2', '5', '1', 'é', '"'] 1 ['1'] :=
    @EscapeBefore.octal _ [1] (by decide) (by decide) (by decide)
      (.inr (by unfold NoOctalDigit; decide)) (by decide)
  have hhex : EscapeBefore ['\\', '2', '5', '1', 'é', '"'] 0xC3 ['x', 'C', '3'] :=
    @EscapeBefore.hex _ 12 3 _ _ (by decide) (by decide) (by decide) (by decide)
  have hlong : EscapeBefore ['é', '"'] 0xA9 ['2', '5', '1'] :=
    @EscapeBefore.octal _ [2, 5, 1] (by decide) (by decide) (by decide) (.inl rfl) (by decide)
  have hpieces : Reads '"'
      ['\'', '#', '\\', '1', '8', '\\', 'x', 'C', '3', '\\', '2', '5', '1', 'é', '"']
      [.raw '\'', .raw '#', .escaped 1, .raw '8', .escaped 0xC3, .escaped 0xA9, .raw 'é'] [] := by
    refine .raw (by decide) (by decide) (by decide) (.raw (by decide) (by decide) (by decide) ?_)
    refine .escaped hshort (.raw (by decide) (by decide) (by decide) ?_)
    refine .escaped hhex (.escaped hlong ?_)
    exact .raw (by decide) (by decide) (by decide) .close
  have hcs : Spells [.raw '\'', .raw '#', .escaped 1, .raw '8', .escaped 0xC3, .escaped 0xA9,
      .raw 'é'] ['\'', '#', '\x01', '8', 'é', 'é'] :=
    .raw [] (.raw [] (.raw ['\x01'] (.raw ['é'] (.run []))))
  obtain ⟨-, -, htoken, -⟩ := (tokensFrom_quoted (.inl rfl) 4 _).1 _ _ hpieces
  have htoken := htoken _ hcs
  rw [TextFormat.tokensFrom] at htoken
  exact htoken

end CorpusAnnotator.TextFormat
