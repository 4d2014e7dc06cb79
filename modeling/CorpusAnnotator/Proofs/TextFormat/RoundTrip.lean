import CorpusAnnotator.Proofs.TextFormat.Acceptance
import CorpusAnnotator.Proofs.TextFormat.Lexing

/-! Messages and the texts that write them. Every message with names that fields can have is written
by some text, and every such text is read back as that message. -/
namespace CorpusAnnotator.TextFormat

open Results

/-! ## Tokens that can be spelled -/

/-- Tokens that can be spelled, each by itself. -/
def Spellable (ts : List Token) : Prop :=
  ∀ t ∈ ts, ∃ form, Spelling t form

theorem Spellable.append {ts ts' : List Token} (h : Spellable ts) (h' : Spellable ts') :
    Spellable (ts ++ ts') := by
  intro t ht
  rcases List.mem_append.mp ht with ht | ht
  · exact h t ht
  · exact h' t ht

theorem Spellable.cons {t : Token} {ts : List Token} {form : List Char} (h : Spelling t form)
    (h' : Spellable ts) : Spellable (t :: ts) := by
  intro u hu
  rcases List.mem_cons.mp hu with rfl | hu
  · exact ⟨form, h⟩
  · exact h' u hu

theorem spellable_nil : Spellable [] := nofun

theorem IsWord.spelling {text : String} (h : IsWord text) :
    Spelling (.word text) text.toList := by
  have hword := Spelling.word h.1 h.2
  rwa [String.ofList_toList] at hword

/-- Any byte can be written by two hexadecimal digits. -/
theorem exists_escapeForm (byte : UInt8) : ∃ form, EscapeForm byte form := by
  have hbyte : UInt8.ofNat (16 * (byte.toNat / 16) + byte.toNat % 16) = byte := by
    rw [Nat.div_add_mod, UInt8.ofNat_toNat]
  have hlt : byte.toNat < 256 := byte.toNat_lt
  refine ⟨['x', (byte.toNat / 16).digitChar, (byte.toNat % 16).digitChar], ?_⟩
  have hform := EscapeForm.hex (m := byte.toNat / 16) (n := byte.toNat % 16) (by omega) (by omega)
    List.mem_cons_self List.mem_cons_self
  rwa [hbyte] at hform

theorem exists_escapes (bytes : List UInt8) : ∃ form, Escapes bytes form := by
  induction bytes with
  | nil => exact ⟨[], .nil⟩
  | cons byte bytes ih =>
    obtain ⟨form, hform⟩ := exists_escapeForm byte
    obtain ⟨text, htext⟩ := ih
    exact ⟨_, .cons hform htext⟩

theorem exists_literalBody (quote : Char) (cs : List Char) : ∃ body, LiteralBody quote cs body := by
  induction cs with
  | nil => exact ⟨[], .nil⟩
  | cons c cs ih =>
    obtain ⟨form, hform⟩ := exists_escapes (String.utf8EncodeChar c)
    obtain ⟨text, htext⟩ := ih
    exact ⟨_, .escaped hform htext⟩

theorem exists_spelling_literal (text : String) : ∃ form, Spelling (.literal text) form := by
  obtain ⟨body, hbody⟩ := exists_literalBody '"' text.toList
  have hliteral := Spelling.literal (.inl rfl) hbody
  rw [String.ofList_toList] at hliteral
  exact ⟨_, hliteral⟩

theorem IsName.exists_phrase {name : String} (h : IsName name) :
    ∃ n : NamePhrase, n.name = name ∧ Spellable n.tokens := by
  rcases h with hword | ⟨word, hword, rfl⟩
  · exact ⟨.word name, rfl, spellable_nil.cons hword.spelling⟩
  · exact ⟨.extension word, rfl,
      ((spellable_nil.cons (.mark .closeBracket)).cons hword.spelling).cons (.mark .openBracket)⟩

mutual

/-- A value can be written as a message in braces, or as one literal behind a colon. -/
theorem Value.WellNamed.exists_phrase {v : Value} (h : v.WellNamed) :
    ∃ b : BodyPhrase, b.values = [v] ∧ Spellable b.tokens := by
  cases v with
  | scalar text =>
    obtain ⟨form, hform⟩ := exists_spelling_literal text
    refine ⟨.scalar (.literals text []), by simp [BodyPhrase.values, ScalarPhrase.text], ?_⟩
    exact (spellable_nil.cons hform).cons (.mark .colon)
  | message fields =>
    obtain ⟨p, hp, hspell⟩ := WellNamedFields.exists_phrase (Value.WellNamed.eq_def _ ▸ h)
    refine ⟨.nested false .braces p, by rw [BodyPhrase.values, hp], ?_⟩
    exact (hspell.append (spellable_nil.cons (.mark .closeBrace))).cons (.mark .openBrace)

theorem WellNamedFields.exists_phrase {m : List (String × Value)} (h : WellNamedFields m) :
    ∃ p : MessagePhrase, p.message = m ∧ Spellable p.tokens := by
  cases m with
  | nil => exact ⟨.empty, rfl, spellable_nil⟩
  | cons field fields =>
    obtain ⟨name, v⟩ := field
    obtain ⟨hname, hvalue, hfields⟩ := h
    obtain ⟨n, rfl, hn⟩ := hname.exists_phrase
    obtain ⟨b, hb, hbody⟩ := hvalue.exists_phrase
    obtain ⟨p, hp, hrest⟩ := WellNamedFields.exists_phrase hfields
    refine ⟨.field n b .nothing p, by simp [MessagePhrase.message, hb, hp], ?_⟩
    exact hn.append (hbody.append hrest)

end

/-- Tokens that can be spelled can be laid out, with a blank in front of each. -/
theorem Spellable.exists_layout {ts : List Token} (h : Spellable ts) (afterWord : Bool) :
    ∃ text, Layout afterWord ts text := by
  induction ts generalizing afterWord with
  | nil => exact ⟨[], .nil .none⟩
  | cons t ts ih =>
    obtain ⟨form, hform⟩ := h t List.mem_cons_self
    obtain ⟨text, htext⟩ := ih (fun u hu => h u (List.mem_cons_of_mem t hu)) t.isWord
    -- a blank is never wrong
    have hblank : Gap [' '] := .blank (by decide) .none
    exact ⟨_, .cons hblank (fun _ _ => List.cons_ne_nil _ _) hform htext⟩

/-! ## Reading back -/

theorem Message.Writes.read {m : Message} {text : String} (h : m.Writes text) :
    Message.read text = .ok m := by
  obtain ⟨p, rfl, hlayout⟩ := h
  obtain ⟨located, htokens, hbare⟩ := hlayout.tokensFrom 1
  have htokens : tokens text.toList = .ok located := htokens
  rw [Message.read, htokens, ok_bind]
  exact p.ofTokens_eq hbare

/-- A message whose names are those of fields can be written, and however it is written it is read
back. -/
theorem Message.read_of_writes (m : Message) :
    (WellNamedFields m → ∃ text, m.Writes text) ∧
    ∀ text, m.Writes text → Message.read text = .ok m := by
  refine ⟨?_, fun text h => h.read⟩
  intro h
  obtain ⟨p, hp, hspell⟩ := h.exists_phrase
  obtain ⟨text, htext⟩ := hspell.exists_layout false
  exact ⟨String.ofList text, p, hp, by rwa [String.toList_ofList]⟩

/-- A nested message with a comment before it, whose one field is an extension with a list of two
values, the first of them spelled byte by byte. -/
theorem Message.read_of_writes_nested :
    let m : Message := [("f", .message [("[x]", .scalar "é"), ("[x]", .scalar "z")])]
    let text := "f#\n<[x]['\\303\\xA9',z];>"
    (∃ text, m.Writes text) ∧ Message.read text = .ok m := by
  intro m text
  have hf : IsWord "f" := ⟨by decide, List.all_eq_true.mp rfl⟩
  have hx : IsWord "x" := ⟨by decide, List.all_eq_true.mp rfl⟩
  have hz : IsWord "z" := ⟨by decide, List.all_eq_true.mp rfl⟩
  have hnames : WellNamedFields m :=
    ⟨.inl hf, ⟨.inr ⟨"x", hx, rfl⟩, trivial, .inr ⟨"x", hx, rfl⟩, trivial, trivial⟩, trivial⟩
  refine ⟨(Message.read_of_writes m).1 hnames, (Message.read_of_writes m).2 text ⟨?_, ?_, ?_⟩⟩
  · exact .field (.word "f") (.nested false .angles (.field (.extension "x") (.list false
      (.more (.scalar (.literals "é" [])) (.last (.scalar (.word "z"))))) .semicolon .empty))
      .nothing .empty
  · rfl
  have hf : Spelling (.word "f") ['f'] := hf.spelling
  have hx : Spelling (.word "x") ['x'] := hx.spelling
  have hz : Spelling (.word "z") ['z'] := hz.spelling
  have hchar : Escapes (String.utf8EncodeChar 'é') ['\\', '3', '0', '3', '\\', 'x', 'A', '9'] :=
    .cons (.octal (a := 3) (b := 0) (c := 3) (by decide) (by decide) (by decide))
      (.cons (.hex (m := 10) (n := 9) (by decide) (by decide) (by decide) (by decide)) .nil)
  have hliteral := @Spelling.literal '\'' _ _ (.inr rfl) (.escaped hchar .nil)
  have hgap : Gap ['#', '\n'] := @Gap.comment [] [] nofun .none
  have hclose := @Layout.mark true _ _ .closeBracket
    (.mark .semicolon (.mark .closeAngle (.nil .none)))
  have hlist := @Layout.mark true _ _ .closeBracket (.mark .openBracket
    (.cons .none nofun hliteral (.mark .comma (.cons .none nofun hz hclose))))
  have hlayout := @Layout.cons false _ _ _ _ _ .none nofun hf (.cons hgap (fun _ hm => by cases hm)
    (.mark .openAngle) (.mark .openBracket (.cons .none nofun hx hlist)))
  have htext : text.toList = ['f', '#', '\n', '<', '[', 'x', ']', '[', '\'', '\\', '3', '0', '3',
      '\\', 'x', 'A', '9', '\'', ',', 'z', ']', ';', '>'] := by decide
  rw [htext]
  exact hlayout

end CorpusAnnotator.TextFormat
