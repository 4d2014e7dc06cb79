import CorpusAnnotator.Proofs.TextFormat.Literals
import CorpusAnnotator.Proofs.TextFormat.Parts

/-! However tokens are written, cutting the text gives them back. -/
namespace CorpusAnnotator.TextFormat

variable {line : Nat} {c quote : Char} {rest text : List Char}

/-! ## Kinds of characters -/

/-- The code points of all blanks. -/
def blankPoints : List Nat :=
  [9, 10, 11, 12, 13, 32, 133, 160, 5760, 8192, 8193, 8194, 8195, 8196, 8197, 8198, 8199, 8200,
    8201, 8202, 8232, 8233, 8239, 8287, 12288]

theorem toNat_mem_blankPoints (h : Text.isBlank c = true) : c.toNat ∈ blankPoints := by
  -- the first blanks are told one by one, all others by the edges of a table
  have hn : c.toNat = 32 ∨ 9 ≤ c.toNat ∧ c.toNat ≤ 13 ∨
      Text.CharClass.side Text.blanks.edges c.toNat false = true ∧ 128 ≤ c.toNat := by
    unfold Text.isBlank at h
    split at h
    · simp only [Bool.or_eq_true, beq_iff_eq, Bool.and_eq_true, decide_eq_true_eq] at h
      rcases h with rfl | h
      · exact .inl rfl
      · exact .inr (.inl h)
    · next hfar => exact .inr (.inr ⟨h, Nat.le_of_not_lt hfar⟩)
  generalize c.toNat = n at hn
  simp [Text.blanks, Text.CharClass.side] at hn
  simp [blankPoints]
  omega

theorem isWordChar_ofNat_blankPoints : ∀ n ∈ blankPoints, isWordChar (Char.ofNat n) = false := by
  decide +kernel

theorem isWordChar_of_isBlank (h : Text.isBlank c = true) : isWordChar c = false := by
  have hc := isWordChar_ofNat_blankPoints _ (toNat_mem_blankPoints h)
  rwa [Char.ofNat_toNat] at hc

theorem isWordChar_char (m : Mark) : isWordChar m.char = false := by
  cases m <;> decide

/-- What a quote has no meaning as. -/
structure IsQuote (c : Char) : Prop where
  line : c ≠ '\n'
  slash : c ≠ '\\'
  comment : c ≠ '#'
  blank : Text.isBlank c = false
  mark : Mark.ofChar? c = none
  word : isWordChar c = false

theorem isQuote_of_eq (h : quote = '"' ∨ quote = '\'') : IsQuote quote := by
  rcases h with rfl | rfl
  · exact ⟨by decide, by decide, by decide, by decide, by decide, by decide⟩
  · exact ⟨by decide, by decide, by decide, by decide, by decide, by decide⟩

/-- A character of a word has no other meaning. -/
theorem ne_of_isWordChar (h : isWordChar c = true) {d : Char} (hd : isWordChar d = false) :
    c ≠ d := by
  rintro rfl
  rw [hd] at h
  cases h

theorem ofChar?_of_isWordChar (h : isWordChar c = true) : Mark.ofChar? c = none := by
  cases hm : Mark.ofChar? c with
  | none => rfl
  | some m => exact absurd (Mark.char_of_ofChar? hm).symm (ne_of_isWordChar h (isWordChar_char m))

theorem isBlank_of_isWordChar (h : isWordChar c = true) : Text.isBlank c = false := by
  cases hc : Text.isBlank c with
  | false => rfl
  | true =>
    rw [isWordChar_of_isBlank hc] at h
    cases h

/-! ## One step between tokens -/

theorem tokensFrom_blank (h : Text.isBlank c = true) (line : Nat) (rest : List Char) :
    tokensFrom line (c :: rest) = tokensFrom (line + [c].count '\n') rest := by
  rw [tokensFrom]
  by_cases hc : c = '\n'
  · subst hc
    exact if_pos rfl
  · rw [if_neg hc, if_pos h, List.count_singleton, if_neg (by simp [hc]), Nat.add_zero]

theorem dropWhile_ne_newline {body : List Char} (h : '\n' ∉ body) :
    (body ++ '\n' :: rest).dropWhile (· != '\n') = '\n' :: rest := by
  rw [List.dropWhile_append_of_pos]
  · rfl
  · intro d hd
    simp only [bne_iff_ne, ne_eq]
    rintro rfl
    exact h hd

theorem tokensFrom_comment {body : List Char} (h : '\n' ∉ body) :
    tokensFrom line ('#' :: (body ++ '\n' :: rest)) = tokensFrom (line + 1) rest := by
  rw [tokensFrom, if_neg (by decide), if_neg (by decide), if_pos rfl, dropWhile_ne_newline h,
    tokensFrom, if_pos rfl]

/-- Nothing is read from between tokens, but lines are counted. -/
theorem Gap.tokensFrom {gap : List Char} (h : Gap gap) (line : Nat) (text : List Char) :
    tokensFrom line (gap ++ text) = tokensFrom (line + gap.count '\n') text := by
  induction h generalizing line with
  | none => rfl
  | @blank c gap hc _ ih =>
    rw [List.cons_append, tokensFrom_blank hc, ih, Nat.add_assoc, ← List.count_append]
    rfl
  | @comment body gap hbody _ ih =>
    have hcount : ('#' :: (body ++ '\n' :: gap)).count '\n' = 1 + gap.count '\n' := by
      rw [List.count_cons_of_ne (by decide), List.count_append, List.count_eq_zero_of_not_mem hbody,
        List.count_cons_self]
      omega
    rw [List.cons_append, List.append_assoc, List.cons_append, tokensFrom_comment hbody, ih,
      hcount, Nat.add_assoc]

/-! ## One token -/

/-- A text that does not go on with a character of a word. -/
def NoWordChar (text : List Char) : Prop :=
  ∀ c, text.head? = some c → isWordChar c = false

theorem noWordChar_cons (h : isWordChar c = false) : NoWordChar (c :: rest) := by
  intro d hd
  cases hd
  exact h

theorem tokensFrom_mark (m : Mark) :
    tokensFrom line (m.char :: rest) = (tokensFrom line rest).map (⟨.mark m, line⟩ :: ·) := by
  have hline : m.char ≠ '\n' := by cases m <;> decide
  have hblank : Text.isBlank m.char = false := by cases m <;> decide
  have hcomment : m.char ≠ '#' := by cases m <;> decide
  rw [tokensFrom, if_neg hline, if_neg (by simp [hblank]), if_neg hcomment, Mark.ofChar?_char]

theorem takeWhile_word {cs : List Char} (h : ∀ c ∈ cs, isWordChar c = true)
    (hrest : NoWordChar rest) :
    (cs ++ rest).takeWhile isWordChar = cs ∧ (cs ++ rest).dropWhile isWordChar = rest := by
  rw [List.takeWhile_append_of_pos h, List.dropWhile_append_of_pos h]
  cases rest with
  | nil => exact ⟨List.append_nil cs, rfl⟩
  | cons d rest =>
    have hd := hrest d rfl
    rw [List.takeWhile_cons_of_neg (by simp [hd]), List.dropWhile_cons_of_neg (by simp [hd])]
    exact ⟨List.append_nil cs, rfl⟩

theorem tokensFrom_word {cs : List Char} (hne : cs ≠ []) (h : ∀ c ∈ cs, isWordChar c = true)
    (hrest : NoWordChar rest) :
    tokensFrom line (cs ++ rest) =
      (tokensFrom line rest).map (⟨.word (String.ofList cs), line⟩ :: ·) := by
  cases cs with
  | nil => exact absurd rfl hne
  | cons c cs =>
    have hc := h c List.mem_cons_self
    obtain ⟨htake, hdrop⟩ := takeWhile_word (fun d hd => h d (List.mem_cons_of_mem c hd)) hrest
    have hquotes : ¬ (c = '"' ∨ c = '\'') := by
      intro hq
      exact ne_of_isWordChar hc (isQuote_of_eq hq).word rfl
    rw [List.cons_append, tokensFrom, if_neg (ne_of_isWordChar hc (by decide)),
      if_neg (by simp [isBlank_of_isWordChar hc]), if_neg (ne_of_isWordChar hc (by decide)),
      ofChar?_of_isWordChar hc]
    simp only
    rw [if_neg hquotes, if_pos hc, htake, hdrop]

theorem tokensFrom_literal {quote : Char} {value : String} {text : List Char} {hr}
    (hquote : quote = '"' ∨ quote = '\'') (h : literal quote text = .ok ⟨value, rest, hr⟩) :
    tokensFrom line (quote :: text) =
      (tokensFrom line rest).map (⟨.literal value, line⟩ :: ·) := by
  have hq := isQuote_of_eq hquote
  rw [tokensFrom, if_neg hq.line, if_neg (by simp [hq.blank]), if_neg hq.comment, hq.mark]
  simp only
  rw [if_pos hquote, h]

theorem tokensFrom_literal_error {cause : Cause} (hquote : quote = '"' ∨ quote = '\'')
    (h : literal quote text = .error cause) :
    tokensFrom line (quote :: text) = .error ⟨line, cause⟩ := by
  have hq := isQuote_of_eq hquote
  rw [tokensFrom, if_neg hq.line, if_neg (by simp [hq.blank]), if_neg hq.comment, hq.mark]
  simp only
  rw [if_pos hquote, h]

/-- What may stand behind a token for its spelling to end there. -/
def EndsBefore (t : Token) (rest : List Char) : Prop :=
  t.isWord = true → NoWordChar rest

theorem Spelling.tokensFrom {t : Token} {form : List Char} (h : Spelling t form)
    (hrest : EndsBefore t rest) :
    tokensFrom line (form ++ rest) = (tokensFrom line rest).map (⟨t, line⟩ :: ·) := by
  cases h with
  | word hne hword => exact tokensFrom_word hne hword (hrest rfl)
  | @literal quote cs body hquote hbody =>
    have hq := isQuote_of_eq hquote
    obtain ⟨hr, hliteral⟩ := hbody.literal hq.line hq.slash rest
    rw [List.cons_append, List.append_assoc]
    exact tokensFrom_literal hquote hliteral
  | mark m => exact tokensFrom_mark m

/-! ## Layouts -/

theorem Gap.noWordChar {gap : List Char} (h : Gap gap) (hne : gap ≠ []) :
    NoWordChar (gap ++ rest) := by
  cases h with
  | none => exact absurd rfl hne
  | blank hc _ => exact noWordChar_cons (isWordChar_of_isBlank hc)
  | comment _ _ => exact noWordChar_cons (by decide)

theorem Spelling.noWordChar {t : Token} {form : List Char} (h : Spelling t form)
    (ht : t.isWord = false) : NoWordChar (form ++ rest) := by
  cases h with
  | word _ _ => cases ht
  | literal hquote _ => exact noWordChar_cons (isQuote_of_eq hquote).word
  | mark m => exact noWordChar_cons (isWordChar_char m)

/-- What is laid out behind a token does not carry it on. -/
theorem Layout.endsBefore {t : Token} {ts : List Token} {text : List Char}
    (h : Layout t.isWord ts text) : EndsBefore t text := by
  intro ht
  rw [ht] at h
  -- behind a word there is either a gap or a token that is no word
  cases h with
  | nil hgap =>
    by_cases hne : text = []
    · subst hne
      nofun
    · rw [← List.append_nil text]
      exact hgap.noWordChar hne
  | @cons _ u ts gap form text hgap hwords hform _ =>
    by_cases hne : gap = []
    · subst hne
      cases hu : u.isWord with
      | true => exact absurd rfl (hwords rfl hu)
      | false => exact hform.noWordChar hu
    · exact hgap.noWordChar hne

/-- Cutting a text gives the tokens that it was laid out from. -/
theorem Layout.tokensFrom {afterWord : Bool} {ts : List Token} {text : List Char}
    (h : Layout afterWord ts text) (line : Nat) :
    ∃ located, tokensFrom line text = .ok located ∧ bare located = ts := by
  -- the line is counted on, and decides nothing but where the tokens are said to stand
  induction h generalizing line with
  | @nil _ gap hgap =>
    have hend := hgap.tokensFrom line []
    rw [List.append_nil, TextFormat.tokensFrom] at hend
    exact ⟨[], hend, rfl⟩
  | @cons _ t ts gap form text hgap _ hform hmore ih =>
    obtain ⟨located, hlocated, rfl⟩ := ih (line + gap.count '\n')
    refine ⟨⟨t, line + gap.count '\n'⟩ :: located, ?_, rfl⟩
    rw [hgap.tokensFrom, hform.tokensFrom hmore.endsBefore, hlocated]
    rfl

end CorpusAnnotator.TextFormat
