import CorpusAnnotator.Proofs.Json.FloatTexts
import CorpusAnnotator.Proofs.Json.Texts

/-! Printed documents, read back. A document is read as the nodes of the values that were printed; a
floating-point number that is not finite comes back as null. -/
namespace CorpusAnnotator.Json

open Number (Binary64 shortest)

/-- The number that a floating-point number is printed as, if it is one. -/
def numeral? : Binary64 → Option Numeral
  | .finite negative m e =>
    some (if m = 0 then ⟨negative, ['0'], ['0'], none⟩
      else numeralOf negative (shortest .toEven m e))
  | _ => none

def symbolsOf (s : String) : List Symbol := s.toList.map .char

mutual

/-- The node that a value is read back as. -/
def Value.node : Value → Node
  | .null => .null
  | .integer n => .number ⟨n < 0, Nat.toDigits 10 n.natAbs, [], none⟩
  | .float x =>
    match numeral? x with
    | some n => .number n
    | none => .null
  | .text s => .text (symbolsOf s)
  | .object fields => .object (fieldNodes fields) .closed

def fieldNodes : List (String × Value) → List (List Symbol × Node)
  | [] => []
  | (name, value) :: rest => (symbolsOf name, value.node) :: fieldNodes rest

end

/-- What is read from a part of a text, with what is left after it. -/
def Part.Gives {α : Type} {input : List Char} (p : Part α input) (a : α) (after : List Char) : Prop :=
  ∃ h, p = .go a after h

variable {α β : Type} {input text rest rest' after spaces : List Char} {a : α} {node : Node}
  {c : Char} {fields : List (List Symbol × Node)} {ending : Ending} {n : Numeral}

/-! ## Parts -/

namespace Part

theorem gives_go (h : after.length < input.length) : (Part.go a after h).Gives a after :=
  ⟨h, rfl⟩

theorem Gives.map {p : Part α input} (h : p.Gives a after) (f : α → β) :
    (p.map f).Gives (f a) after := by
  obtain ⟨hlt, rfl⟩ := h
  exact ⟨hlt, rfl⟩

theorem Gives.widen {part : List Char} {p : Part α part} (h : p.Gives a after)
    (hle : part.length ≤ input.length) : (p.widen hle).Gives a after := by
  obtain ⟨hlt, rfl⟩ := h
  exact ⟨_, rfl⟩

end Part

theorem skipSpaces_append (hspaces : ∀ c ∈ spaces, isSpace c = true) (hc : isSpace c = false) :
    skipSpaces (spaces ++ c :: rest) = c :: rest := by
  rw [skipSpaces, List.dropWhile_append_of_pos hspaces, List.dropWhile_cons_of_neg (by simp [hc])]

theorem readText_quoted (s : String) (after : List Char) :
    (readText (s.toList.flatMap escaped ++ '"' :: after)).Gives (.ok (symbolsOf s)) after := by
  obtain ⟨pieces, hspells, hlt, hread⟩ := exists_readsPieces s.toList after
  refine ⟨hlt, ?_⟩
  rw [readText, hread]
  simp only [symbols_of_spells hspells]
  rfl

/-! ## The first character of a value -/

theorem readNode_text {symbols : List Symbol} (h : skipSpaces text = '"' :: rest)
    (hread : (readText rest).Gives (.ok symbols) after) :
    (readNode text).Gives (.text symbols) after := by
  unfold readNode
  split
  · next hskip => rw [h] at hskip; cases hskip
  · next hskip =>
    rw [h] at hskip
    cases hskip
    rw [if_pos rfl]
    exact (hread.map ofText).widen _

theorem readNode_object (h : skipSpaces text = '\x7b' :: rest)
    (hread : (readFields true rest).Gives (fields, ending) after) :
    (readNode text).Gives (.object fields ending) after := by
  unfold readNode
  split
  · next hskip => rw [h] at hskip; cases hskip
  · next hskip =>
    rw [h] at hskip
    cases hskip
    rw [if_neg (by decide), if_neg (by decide), if_pos rfl]
    exact (hread.map _).widen _

theorem readNode_null (h : skipSpaces text = 'n' :: 'u' :: 'l' :: 'l' :: after) :
    (readNode text).Gives .null after := by
  unfold readNode
  split
  · next hskip => rw [h] at hskip; cases hskip
  · next hskip =>
    rw [h] at hskip
    cases hskip
    rw [if_neg (by decide), if_neg (by decide), if_neg (by decide), if_neg (by decide), if_pos rfl]
    exact Part.gives_go _

theorem readNode_number (h : skipSpaces text = c :: rest) (hc : c = '-' ∨ c.isDigit = true)
    (hread : readNumber (c :: rest) = (.number n, after)) (hlt : after.length < (c :: rest).length) :
    (readNode text).Gives (.number n) after := by
  have hother (d : Char) (hd : ¬(d = '-' ∨ d.isDigit = true)) : c ≠ d := by
    rintro rfl
    exact hd hc
  unfold readNode
  split
  · next hskip => rw [h] at hskip; cases hskip
  · next hskip =>
    rw [h] at hskip
    cases hskip
    rw [if_neg (hother _ (by decide)), if_neg (hother _ (by decide)), if_neg (hother _ (by decide)),
      if_pos hc]
    have hpart : (readNumberPart (c :: rest)).Gives (.number n) after := by
      simp only [readNumberPart, hread, dif_pos hlt]
      exact Part.gives_go hlt
    exact hpart.widen _

/-! ## Fields -/

theorem readFields_closed {first : Bool} (h : skipSpaces text = '\x7d' :: after) :
    (readFields first text).Gives ([], .closed) after := by
  unfold readFields
  split
  · next hskip => rw [h] at hskip; cases hskip
  · next hskip =>
    rw [h] at hskip
    cases hskip
    rw [if_pos rfl]
    exact Part.gives_go _

theorem readFields_first {result : List (List Symbol × Node) × Ending}
    (h : skipSpaces text = '"' :: rest) (hread : (readField rest).Gives result after) :
    (readFields true text).Gives result after := by
  unfold readFields
  split
  · next hskip => rw [h] at hskip; cases hskip
  · next hskip =>
    rw [h] at hskip
    cases hskip
    rw [if_neg (by decide), if_pos (by decide)]
    exact hread.widen _

theorem readFields_next {result : List (List Symbol × Node) × Ending}
    (h : skipSpaces text = ',' :: rest) (h' : skipSpaces rest = '"' :: rest')
    (hread : (readField rest').Gives result after) : (readFields false text).Gives result after := by
  unfold readFields
  split
  · next hskip => rw [h] at hskip; cases hskip
  · next hskip =>
    rw [h] at hskip
    cases hskip
    rw [if_neg (by decide), if_neg (by decide), if_neg (by decide)]
    split
    · next hskip => rw [h'] at hskip; cases hskip
    · next hskip =>
      rw [h'] at hskip
      cases hskip
      rw [if_pos rfl]
      exact hread.widen _

theorem readField_gives {symbols : List Symbol} {afterName afterNode : List Char}
    (hname : (readText text).Gives (.ok symbols) afterName)
    (hcolon : skipSpaces afterName = ':' :: rest) (hnode : (readNode rest).Gives node afterNode)
    (hfields : (readFields false afterNode).Gives (fields, ending) after) :
    (readField text).Gives ((symbols, node) :: fields, ending) after := by
  obtain ⟨hltName, hname⟩ := hname
  obtain ⟨hltNode, hnode⟩ := hnode
  unfold readField
  rw [hname]
  simp only [Part.go]
  split
  · next hskip => rw [hcolon] at hskip; cases hskip
  · next hskip =>
    rw [hcolon] at hskip
    cases hskip
    rw [if_neg (by decide), hnode]
    exact (hfields.map _).widen _

/-! ## What is printed -/

/-- The characters of a field behind the quote that opens its name. -/
def fieldText (depth : Nat) (name : String) (value : Value) : List Char :=
  name.toList.flatMap escaped ++ '"' :: ':' :: ' ' :: (value.render depth).toList

/-- The characters of the fields that follow another one. -/
def moreText (depth : Nat) : List (String × Value) → List Char
  | [] => []
  | (name, value) :: fields =>
    ',' :: '\n' :: (indent depth).toList ++ '"' :: fieldText depth name value ++ moreText depth fields

theorem toList_quoted (s : String) :
    (quoted s).toList = '"' :: (s.toList.flatMap escaped ++ ['"']) := by
  rw [quoted, String.toList_ofList, List.cons_append]

theorem toList_renderFields (depth : Nat) (name : String) (value : Value)
    (fields : List (String × Value)) : (renderFields depth ((name, value) :: fields)).toList =
      (indent depth).toList ++ '"' :: (fieldText depth name value ++ moreText depth fields) := by
  induction fields generalizing name value with
  | nil => simp [renderFields, String.toList_append, toList_quoted, fieldText, moreText]
  | cons field fields ih =>
    simp [renderFields, String.toList_append, toList_quoted, fieldText, moreText, ih]

theorem isSpace_indent (depth : Nat) : ∀ c ∈ (indent depth).toList, isSpace c = true := by
  intro c hc
  rw [indent, String.toList_ofList] at hc
  rw [List.eq_of_mem_replicate hc]
  rfl

theorem isSpace_newline (depth : Nat) : ∀ c ∈ '\n' :: (indent depth).toList, isSpace c = true :=
  List.forall_mem_cons.mpr ⟨rfl, isSpace_indent depth⟩

theorem ends_of_head (hc : c = ',' ∨ c = '\n') (rest : List Char) : Ends (c :: rest) := by
  rintro d hd
  cases hd
  rcases hc with rfl | rfl <;> decide

theorem ends_moreText (depth : Nat) (fields : List (String × Value)) (h : Ends rest) :
    Ends (moreText depth fields ++ rest) := by
  cases fields with
  | nil => exact h
  | cons field fields => exact ends_of_head (.inl rfl) _

/-! ## Numbers -/

theorem readNode_numeral (hn : n.WellFormed) (hspaces : ∀ c ∈ spaces, isSpace c = true)
    (hafter : Ends after) : (readNode (spaces ++ (n.text ++ after))).Gives (.number n) after := by
  obtain ⟨c, rest, htext, hc⟩ := Numeral.text_head hn
  have hspace : isSpace c = false := by
    rcases hc with rfl | hdigit
    · rfl
    · refine Bool.eq_false_iff.mpr fun hspace => ?_
      simp only [isSpace, Bool.or_eq_true, decide_eq_true_eq] at hspace
      rcases hspace with ((rfl | rfl) | rfl) | rfl <;> cases hdigit
  have hread := Numeral.readNumber_text hn hafter
  rw [htext, List.cons_append] at hread ⊢
  refine readNode_number (skipSpaces_append hspaces hspace) hc hread ?_
  rw [List.length_cons, List.length_append]
  omega

theorem wellFormed_integer (n : Int) :
    (Numeral.mk (n < 0) (Nat.toDigits 10 n.natAbs) [] none).WellFormed where
  whole := digits_toDigits n.natAbs
  nonempty := Nat.toDigits_ne_nil
  zero := by
    intro h
    rcases Nat.eq_zero_or_pos n.natAbs with hzero | hpos
    · simp only [hzero]
      rfl
    · exact absurd h (head?_toDigits hpos.ne')
  fraction := nofun
  exponent := nofun

theorem toList_integer (n : Int) : (toString n).toList =
    Numeral.text ⟨n < 0, Nat.toDigits 10 n.natAbs, [], none⟩ := by
  cases n with
  | ofNat n =>
    have hsign : ¬(Int.ofNat n) < 0 := not_lt.mpr (Int.natCast_nonneg n)
    simp only [hsign, decide_false, Numeral.text, Numeral.fractionText, Numeral.exponentText,
      if_true, Bool.false_eq_true, if_false, List.append_nil, List.nil_append]
    exact Nat.toList_repr
  | negSucc n =>
    simp only [Int.negSucc_lt_zero, decide_true, Numeral.text, Numeral.fractionText,
      Numeral.exponentText, if_true, List.append_nil, Int.natAbs_negSucc]
    have hrepr : toString (Int.negSucc n) = "-" ++ (n + 1).repr := rfl
    rw [hrepr, String.toList_append, Nat.toList_repr]
    rfl

theorem wellFormed_numeral? {x : Binary64} (h : numeral? x = some n) : n.WellFormed := by
  cases x with
  | nan => cases h
  | infinite negative => cases h
  | finite negative m e =>
    obtain rfl := Option.some.inj h
    split
    · exact ⟨digits_zeros 1, List.cons_ne_nil _ _, fun _ => rfl, digits_zeros 1, nofun⟩
    · next hm =>
      exact (prints_numeralOf negative
        (Number.shortest_spec .toEven (Nat.pos_of_ne_zero hm) e).1).wellFormed

theorem toList_floatText_of_some {x : Binary64} (h : numeral? x = some n) :
    (floatText x).toList = n.text := by
  cases x with
  | nan => cases h
  | infinite negative => cases h
  | finite negative m e =>
    obtain rfl := Option.some.inj h
    split
    · next hm =>
      rw [floatText]
      dsimp only
      rw [if_pos hm]
      cases negative <;> decide
    · next hm => exact toList_floatText negative hm e

theorem floatText_of_none {x : Binary64} (h : numeral? x = none) : floatText x = "null" := by
  cases x <;> first | rfl | cases h

/-- The number of a floating-point number of the format has a value. -/
theorem exists_value?_of_numeral? {x : Binary64} (hx : x.InFormat) (h : numeral? x = some n) :
    ∃ q, n.value? = some q := by
  cases x with
  | nan => cases h
  | infinite negative => cases h
  | finite negative m e =>
    obtain rfl := Option.some.inj h
    split
    · exact ⟨_, rfl⟩
    · next hm => exact exists_value?_of_formed negative (Nat.pos_of_ne_zero hm) (hx negative m e rfl)

/-! ## Values -/

theorem readNode_nullText (hspaces : ∀ c ∈ spaces, isSpace c = true) :
    (readNode (spaces ++ ("null".toList ++ after))).Gives .null after :=
  readNode_null (skipSpaces_append hspaces rfl)

theorem readField_render {name : String} {value : Value} {depth : Nat}
    (hvalue : (readNode ([' '] ++ ((value.render depth).toList ++ rest))).Gives value.node rest)
    (hmore : (readFields false rest).Gives (fields, ending) after) :
    (readField (fieldText depth name value ++ rest)).Gives
      ((symbolsOf name, value.node) :: fields, ending) after := by
  rw [fieldText, List.append_assoc]
  exact readField_gives (readText_quoted name _) rfl hvalue hmore

mutual

/-- A value is read back as its node, wherever it is printed. -/
theorem readNode_render (v : Value) (depth : Nat) {spaces after : List Char}
    (hspaces : ∀ c ∈ spaces, isSpace c = true) (hafter : Ends after) :
    (readNode (spaces ++ ((v.render depth).toList ++ after))).Gives v.node after := by
  cases v with
  | null => exact readNode_nullText hspaces
  | integer n =>
    rw [Value.render, Value.node, toList_integer]
    exact readNode_numeral (wellFormed_integer n) hspaces hafter
  | float x =>
    rw [Value.render, Value.node]
    cases hx : numeral? x with
    | none =>
      rw [floatText_of_none hx]
      exact readNode_nullText hspaces
    | some n =>
      rw [toList_floatText_of_some hx]
      exact readNode_numeral (wellFormed_numeral? hx) hspaces hafter
  | text s =>
    rw [Value.render, Value.node, toList_quoted, List.cons_append, List.append_assoc]
    exact readNode_text (skipSpaces_append hspaces rfl) (readText_quoted s after)
  | object fields =>
    rw [Value.node]
    cases fields with
    | nil =>
      have htext : ((Value.object []).render depth).toList ++ after = '\x7b' :: '\x7d' :: after := by
        simp [Value.render]
      rw [htext]
      exact readNode_object (skipSpaces_append hspaces rfl) (readFields_closed rfl)
    | cons field fields =>
      obtain ⟨name, value⟩ := field
      have hclosed : skipSpaces ('\n' :: (indent depth).toList ++ '\x7d' :: after) =
          '\x7d' :: after := skipSpaces_append (isSpace_newline depth) rfl
      have hends : Ends ('\n' :: (indent depth).toList ++ '\x7d' :: after) :=
        ends_of_head (.inr rfl) _
      have htext : ((Value.object ((name, value) :: fields)).render depth).toList ++ after =
          '\x7b' :: ('\n' :: (indent (depth + 1)).toList ++ '"' :: (fieldText (depth + 1) name value ++
            (moreText (depth + 1) fields ++ ('\n' :: (indent depth).toList ++ '\x7d' :: after)))) := by
        simp [Value.render, String.toList_append, toList_renderFields]
      rw [htext]
      refine readNode_object (skipSpaces_append hspaces rfl)
        (readFields_first (skipSpaces_append (isSpace_newline (depth + 1)) rfl)
          (readField_render ?_ (readFields_more fields (depth + 1) hclosed hends)))
      exact readNode_render value (depth + 1) (List.forall_mem_singleton.mpr rfl)
        (ends_moreText (depth + 1) fields hends)

theorem readFields_more (fields : List (String × Value)) (depth : Nat) {rest after : List Char}
    (hclosed : skipSpaces rest = '\x7d' :: after) (hrest : Ends rest) :
    (readFields false (moreText depth fields ++ rest)).Gives (fieldNodes fields, .closed) after := by
  cases fields with
  | nil => exact readFields_closed hclosed
  | cons field fields =>
    obtain ⟨name, value⟩ := field
    have htext : moreText depth ((name, value) :: fields) ++ rest =
        ',' :: ('\n' :: (indent depth).toList ++ '"' :: (fieldText depth name value ++
          (moreText depth fields ++ rest))) := by
      simp [moreText]
    rw [htext, fieldNodes]
    refine readFields_next rfl (skipSpaces_append (isSpace_newline depth) rfl)
      (readField_render ?_ (readFields_more fields depth hclosed hrest))
    exact readNode_render value depth (List.forall_mem_singleton.mpr rfl)
      (ends_moreText depth fields hrest)

end

/-- A printed document is read back as its node, and nothing is left. -/
theorem read_toText (v : Value) : Document.read v.toText = ⟨v.node, []⟩ := by
  have hread : (readNode ([] ++ ((v.render 0).toList ++ []))).Gives v.node [] :=
    readNode_render v 0 nofun nofun
  rw [List.nil_append, List.append_nil] at hread
  obtain ⟨hlt, hread⟩ := hread
  rw [Document.read, Value.toText, hread]
  rfl

end CorpusAnnotator.Json
