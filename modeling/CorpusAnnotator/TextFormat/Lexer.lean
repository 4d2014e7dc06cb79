import CorpusAnnotator.Text.Blank
import CorpusAnnotator.TextFormat.Literal

/-! Cutting a text into tokens. Between tokens stand blanks and comments, which run from a number
sign to the end of the line. -/
namespace CorpusAnnotator.TextFormat

/-- The tokens of `text`, whose first character stands on `line`. -/
def tokensFrom (line : Nat) (text : List Char) : Except Error (List Located) :=
  match text with
  | [] => .ok []
  | c :: rest =>
    if c = '\n' then tokensFrom (line + 1) rest
    else if Text.isBlank c then tokensFrom line rest
    else if c = '#' then tokensFrom line (rest.dropWhile (· != '\n'))
    else
      match Mark.ofChar? c with
      | some m => (tokensFrom line rest).map (⟨.mark m, line⟩ :: ·)
      | none =>
        if c = '"' ∨ c = '\'' then
          match literal c rest with
          | .error cause => .error ⟨line, cause⟩
          | .ok ⟨value, rest', _⟩ => (tokensFrom line rest').map (⟨.literal value, line⟩ :: ·)
        else if isWordChar c then
          (tokensFrom line (rest.dropWhile isWordChar)).map
            (⟨.word (String.ofList (c :: rest.takeWhile isWordChar)), line⟩ :: ·)
        else .error ⟨line, .unexpectedChar c⟩
termination_by text.length
decreasing_by
  all_goals simp only [List.length_cons]
  all_goals first
    | omega
    | exact Nat.lt_succ_of_le (List.dropWhile_sublist _).length_le

/-- The tokens of a text. -/
def tokens (text : List Char) : Except Error (List Located) :=
  tokensFrom 1 text

end CorpusAnnotator.TextFormat
