import CorpusAnnotator.Proofs.Results
import CorpusAnnotator.Proofs.TextFormat.Parts

/-! What the reader of messages accepts is derived by a phrase, which denotes what was read. -/
namespace CorpusAnnotator.TextFormat

open Results

variable {last : Nat} {ts rest : List Located}

/-! ## One step of each reader -/

/-- Fields that have been read were none, up to the closing mark or to the end, or a first field and
the fields after it. -/
theorem fields_step {close : Option Mark} {m : Message} {hr}
    (h : fields last close ts = .ok ⟨m, rest, hr⟩) :
    (m = [] ∧ bare ts = close.toList.map .mark ++ bare rest ∧ (close = none → rest = [])) ∨
    ∃ name r₁ h₁ values r₂ h₂ more h₃,
      fieldName last ts = .ok ⟨name, r₁, h₁⟩ ∧
      fieldValues last name r₁ = .ok ⟨values, r₂, h₂⟩ ∧
      fields last close (skipSeparator r₂).rest = .ok ⟨more, rest, h₃⟩ ∧
      m = values.map (name, ·) ++ more := by
  rw [fields.eq_def] at h
  split at h
  · split at h
    · cases h
      exact .inl ⟨rfl, rfl, fun _ => rfl⟩
    · cases h
  · split at h
    · next hclose =>
      cases h
      obtain ⟨c, rfl, hc⟩ := Option.map_eq_some_iff.mp hclose
      exact .inl ⟨rfl, by simp [hc], fun h => absurd h (Option.some_ne_none c)⟩
    · obtain ⟨⟨name, r₁, h₁⟩, hname, h⟩ := bind_eq_ok_iff.mp h
      obtain ⟨⟨values, r₂, h₂⟩, hvalues, h⟩ := bind_eq_ok_iff.mp h
      obtain ⟨⟨more, r₃, h₃⟩, hmore, h⟩ := bind_eq_ok_iff.mp h
      cases h
      exact .inr ⟨name, r₁, h₁, values, r₂, h₂, more, h₃, hname, hvalues, hmore, rfl⟩

/-- Values that have been read after a name are one nested message, none, those of a list, or after
a colon one scalar. -/
theorem fieldValues_step {name : String} {values : List Value} {hr}
    (h : fieldValues last name ts = .ok ⟨values, rest, hr⟩) :
    ∃ colon ts', bare ts = colonTokens colon ++ bare ts' ∧ ts'.length ≤ ts.length ∧
      ((∃ (d : Delimiter) (after : List Located) (m : Message) (h' : _),
          bare ts' = .mark d.opening :: bare after ∧ after.length < ts'.length ∧
          fields last (some d.closing) after = .ok ⟨m, rest, h'⟩ ∧ values = [.message m]) ∨
        (bare ts' = .mark .openBracket :: .mark .closeBracket :: bare rest ∧ values = []) ∨
        (∃ after h', bare ts' = .mark .openBracket :: bare after ∧ after.length < ts'.length ∧
          items last name after = .ok ⟨values, rest, h'⟩) ∨
        (colon = true ∧ ∃ text h', scalar last ts' = .ok ⟨text, rest, h'⟩ ∧
          values = [.scalar text])) := by
  have hcolon := bare_eq_of_skip .colon ts
  rw [fieldValues.eq_def] at h
  cases hskip : skip .colon ts with
  | mk colon ts' hle =>
    rw [hskip] at h hcolon
    refine ⟨colon, ts', hcolon, hle, ?_⟩
    cases ts' with
    | nil => cases colon <;> cases h
    | cons t after =>
      cases hopens : opens? t with
      | some close =>
        simp only [hopens] at h
        obtain ⟨d, ht, rfl⟩ := opens?_eq_some_iff.mp hopens
        obtain ⟨⟨m, r, hm⟩, hfields, h⟩ := bind_eq_ok_iff.mp h
        cases h
        exact .inl ⟨d, after, m, hm, by simp [ht], by simp, hfields, rfl⟩
      | none =>
        simp only [hopens] at h
        split at h
        · next ht =>
          -- a list without items is one whose bracket is closed at once
          have hclosed := bare_eq_of_skip .closeBracket after
          split at h
          · next hvalue =>
            cases h
            exact .inr (.inl ⟨by simp [ht, hclosed, hvalue], rfl⟩)
          · next hvalue =>
            obtain ⟨⟨vs, r, hvs⟩, hitems, h⟩ := bind_eq_ok_iff.mp h
            cases h
            have hlen := (skip .closeBracket after).notLonger
            refine .inr (.inr (.inl ⟨(skip .closeBracket after).rest, hvs, ?_, ?_, hitems⟩))
            · rw [bare_cons, ht, hclosed, if_neg hvalue]
              rfl
            · exact Nat.lt_succ_of_le hlen
        · split at h
          · next hcolon' =>
            obtain ⟨⟨text, r, htext⟩, hscalar, h⟩ := bind_eq_ok_iff.mp h
            cases h
            exact .inr (.inr (.inr ⟨hcolon', text, htext, hscalar, rfl⟩))
          · cases h

/-- Items that have been read were the last one, or a first one and those after the comma. -/
theorem items_step {name : String} {values : List Value} {hr}
    (h : items last name ts = .ok ⟨values, rest, hr⟩) :
    ∃ v r h', value last ts = .ok ⟨v, r, h'⟩ ∧
      ((bare r = .mark .closeBracket :: bare rest ∧ values = [v]) ∨
        ∃ after more h'', bare r = .mark .comma :: bare after ∧ after.length ≤ r.length ∧
          items last name after = .ok ⟨more, rest, h''⟩ ∧ values = v :: more) := by
  rw [items.eq_def] at h
  obtain ⟨⟨v, r, h'⟩, hv, h⟩ := bind_eq_ok_iff.mp h
  refine ⟨v, r, h', hv, ?_⟩
  have hcomma := bare_eq_of_skip .comma r
  cases hskip : skip .comma r with
  | mk comma after hle =>
    rw [hskip] at hcomma
    simp only at h
    rw [hskip] at h
    cases comma with
    | true =>
      obtain ⟨⟨more, r', h''⟩, hmore, h⟩ := bind_eq_ok_iff.mp h
      cases h
      exact .inr ⟨after, more, h'', hcomma, hle, hmore, rfl⟩
    | false =>
      -- without a comma the list has to end here
      have hclosed := bare_eq_of_skip .closeBracket after
      have hcomma : bare r = bare after := hcomma
      rw [hcomma]
      cases hskip' : skip .closeBracket after with
      | mk closed after' hle' =>
        rw [hskip'] at hclosed
        simp only [Bool.false_eq_true, if_false] at h
        rw [hskip'] at h
        cases closed with
        | true =>
          cases h
          exact .inl ⟨hclosed, rfl⟩
        | false => cases h

/-- A value that has been read is a nested message or a scalar. -/
theorem value_step {v : Value} {hr} (h : value last ts = .ok ⟨v, rest, hr⟩) :
    (∃ (d : Delimiter) (after : List Located) (m : Message) (h' : _),
        bare ts = .mark d.opening :: bare after ∧ after.length < ts.length ∧
        fields last (some d.closing) after = .ok ⟨m, rest, h'⟩ ∧ v = .message m) ∨
      ∃ text h', scalar last ts = .ok ⟨text, rest, h'⟩ ∧ v = .scalar text := by
  rw [value.eq_def] at h
  cases ts with
  | nil =>
    obtain ⟨⟨text, r, h'⟩, hscalar, h⟩ := map_eq_ok_iff.mp h
    cases h
    exact .inr ⟨text, h', hscalar, rfl⟩
  | cons t after =>
    cases hopens : opens? t with
    | some close =>
      simp only [hopens] at h
      obtain ⟨d, ht, rfl⟩ := opens?_eq_some_iff.mp hopens
      obtain ⟨⟨m, r, hm⟩, hfields, h⟩ := bind_eq_ok_iff.mp h
      cases h
      exact .inl ⟨d, after, m, hm, by simp [ht], by simp, hfields, rfl⟩
    | none =>
      simp only [hopens] at h
      obtain ⟨⟨text, r, h'⟩, hscalar, h⟩ := map_eq_ok_iff.mp h
      cases h
      exact .inr ⟨text, h', hscalar, rfl⟩

/-! ## All readers together

The induction follows the readers: each of them leaves fewer tokens to the next, but for a list,
which begins with its first item. -/

mutual

theorem fields_sound {ts rest : List Located} {close : Option Mark} {m : Message} {hr}
    (h : fields last close ts = .ok ⟨m, rest, hr⟩) :
    ∃ p : MessagePhrase, p.message = m ∧
      bare ts = p.tokens ++ (close.toList.map .mark ++ bare rest) ∧ (close = none → rest = []) := by
  obtain ⟨rfl, hts, hend⟩ | ⟨name, r₁, h₁, values, r₂, h₂, more, h₃, hname, hvalues, hmore, rfl⟩ :=
    fields_step h
  · exact ⟨.empty, rfl, hts, hend⟩
  · -- a first field, whose phrase is put together from those of its parts
    obtain ⟨n, rfl, hn⟩ := fieldName_sound hname
    obtain ⟨b, rfl, hb⟩ := fieldValues_sound hvalues
    obtain ⟨s, hs⟩ := skipSeparator_sound r₂
    obtain ⟨p, rfl, hp, hend⟩ := fields_sound hmore
    refine ⟨.field n b s p, rfl, ?_, hend⟩
    simp [MessagePhrase.tokens, hn, hb, hs, hp]
termination_by (ts.length, 0)
decreasing_by
  · exact Prod.Lex.left _ _ h₁
  · have := (skipSeparator r₂).notLonger
    exact Prod.Lex.left _ _ (by omega)

theorem fieldValues_sound {ts rest : List Located} {name : String} {values : List Value} {hr}
    (h : fieldValues last name ts = .ok ⟨values, rest, hr⟩) :
    ∃ b : BodyPhrase, b.values = values ∧ bare ts = b.tokens ++ bare rest := by
  obtain ⟨colon, ts', hts, hle, hbody⟩ := fieldValues_step h
  obtain ⟨d, after, m, h', hts', hlt, hfields, rfl⟩ | ⟨hts', rfl⟩ |
    ⟨after, h', hts', hlt, hitems⟩ | ⟨rfl, text, h', hscalar, rfl⟩ := hbody
  · obtain ⟨p, rfl, hp, -⟩ := fields_sound hfields
    refine ⟨.nested colon d p, rfl, ?_⟩
    simp [BodyPhrase.tokens, hts, hts', hp]
  · exact ⟨.emptyList colon, rfl, by simp [BodyPhrase.tokens, hts, hts']⟩
  · obtain ⟨l, rfl, hl⟩ := items_sound hitems
    exact ⟨.list colon l, rfl, by simp [BodyPhrase.tokens, hts, hts', hl]⟩
  · obtain ⟨s, rfl, hs⟩ := scalar_sound hscalar
    exact ⟨.scalar s, rfl, by simp [BodyPhrase.tokens, colonTokens, hts, hs]⟩
termination_by (ts.length, 2)
decreasing_by
  all_goals exact Prod.Lex.left _ _ (by omega)

theorem items_sound {ts rest : List Located} {name : String} {values : List Value} {hr}
    (h : items last name ts = .ok ⟨values, rest, hr⟩) :
    ∃ l : ItemsPhrase, l.values = values ∧
      bare ts = l.tokens ++ .mark .closeBracket :: bare rest := by
  obtain ⟨v, r, h', hv, hrest⟩ := items_step h
  obtain ⟨i, rfl, hi⟩ := value_sound hv
  obtain ⟨hr, rfl⟩ | ⟨after, more, h'', hr, hle, hmore, rfl⟩ := hrest
  · exact ⟨.last i, rfl, by simp [ItemsPhrase.tokens, hi, hr]⟩
  · obtain ⟨l, rfl, hl⟩ := items_sound hmore
    exact ⟨.more i l, rfl, by simp [ItemsPhrase.tokens, hi, hr, hl]⟩
termination_by (ts.length, 1)
decreasing_by
  · exact Prod.Lex.right _ (by decide)
  · exact Prod.Lex.left _ _ (by omega)

theorem value_sound {ts rest : List Located} {v : Value} {hr}
    (h : value last ts = .ok ⟨v, rest, hr⟩) :
    ∃ i : ItemPhrase, i.value = v ∧ bare ts = i.tokens ++ bare rest := by
  obtain ⟨d, after, m, h', hts, hlt, hfields, rfl⟩ | ⟨text, h', hscalar, rfl⟩ := value_step h
  · obtain ⟨p, rfl, hp, -⟩ := fields_sound hfields
    exact ⟨.nested d p, rfl, by simp [ItemPhrase.tokens, hts, hp]⟩
  · obtain ⟨s, rfl, hs⟩ := scalar_sound hscalar
    exact ⟨.scalar s, rfl, hs⟩
termination_by (ts.length, 0)
decreasing_by
  exact Prod.Lex.left _ _ hlt

end

end CorpusAnnotator.TextFormat
