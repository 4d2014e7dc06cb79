/-! What a reader hands back: a value read from the front of its input, and the rest. The rest is
shorter, which is why a loop of readers ends. -/
namespace CorpusAnnotator.Text

/-- A value read from the front of `input`, of which at least one item is used up. -/
structure Taken {τ : Type} (α : Type) (input : List τ) where
  value : α
  rest : List τ
  shorter : rest.length < input.length

/-- A value read from the front of `input`, of which perhaps nothing is used up. -/
structure Left {τ : Type} (α : Type) (input : List τ) where
  value : α
  rest : List τ
  notLonger : rest.length ≤ input.length

variable {τ α β : Type} {input : List τ}

/-- A value read from one item. -/
def Taken.one {item : τ} {rest : List τ} (value : α) : Taken α (item :: rest) :=
  ⟨value, rest, Nat.lt_succ_self _⟩

def Taken.map (f : α → β) (t : Taken α input) : Taken β input :=
  { t with value := f t.value }

/-- A value for which nothing is read. -/
def Left.unread (value : α) : Left α input :=
  ⟨value, input, Nat.le_refl _⟩

def Left.map (f : α → β) (t : Left α input) : Left β input :=
  { t with value := f t.value }

def Taken.toLeft (t : Taken α input) : Left α input :=
  ⟨t.value, t.rest, Nat.le_of_lt t.shorter⟩

/-- What was read from a part of the input was read from the input. -/
def Taken.widen {part : List τ} (t : Taken α part) (h : part.length ≤ input.length) :
    Taken α input :=
  ⟨t.value, t.rest, Nat.lt_of_lt_of_le t.shorter h⟩

/-- What was read from behind one item was read from the input with it. -/
def Taken.behind {item : τ} {rest : List τ} (t : Taken α rest) : Taken α (item :: rest) :=
  t.widen (Nat.le_succ _)

/-- What was read from where another value left off was read from the input. -/
def Taken.andThen (t : Taken α input) (u : Taken β t.rest) : Taken β input :=
  u.widen (Nat.le_of_lt t.shorter)

def Left.widen {part : List τ} (t : Left α part) (h : part.length ≤ input.length) :
    Left α input :=
  ⟨t.value, t.rest, Nat.le_trans t.notLonger h⟩

def Left.behind {item : τ} {rest : List τ} (t : Left α rest) : Taken α (item :: rest) :=
  ⟨t.value, t.rest, Nat.lt_succ_of_le t.notLonger⟩

def Left.andThen (t : Left α input) (u : Taken β t.rest) : Taken β input :=
  u.widen t.notLonger

section

variable {item : τ} {items part : List τ}

@[simp] theorem Taken.rest_one (value : α) :
    (Taken.one value : Taken α (item :: items)).rest = items := rfl

@[simp] theorem Taken.value_one (value : α) :
    (Taken.one value : Taken α (item :: items)).value = value := rfl

@[simp] theorem Taken.rest_map (f : α → β) (t : Taken α input) : (t.map f).rest = t.rest := rfl

@[simp] theorem Taken.value_map (f : α → β) (t : Taken α input) :
    (t.map f).value = f t.value := rfl

@[simp] theorem Taken.rest_toLeft (t : Taken α input) : t.toLeft.rest = t.rest := rfl

@[simp] theorem Taken.value_toLeft (t : Taken α input) : t.toLeft.value = t.value := rfl

@[simp] theorem Taken.rest_widen (t : Taken α part) (h : part.length ≤ input.length) :
    (t.widen h).rest = t.rest := rfl

@[simp] theorem Taken.value_widen (t : Taken α part) (h : part.length ≤ input.length) :
    (t.widen h).value = t.value := rfl

@[simp] theorem Taken.rest_behind (t : Taken α items) :
    (t.behind : Taken α (item :: items)).rest = t.rest := rfl

@[simp] theorem Taken.value_behind (t : Taken α items) :
    (t.behind : Taken α (item :: items)).value = t.value := rfl

@[simp] theorem Taken.rest_andThen (t : Taken α input) (u : Taken β t.rest) :
    (t.andThen u).rest = u.rest := rfl

@[simp] theorem Taken.value_andThen (t : Taken α input) (u : Taken β t.rest) :
    (t.andThen u).value = u.value := rfl

@[simp] theorem Left.rest_unread (value : α) : (Left.unread value : Left α input).rest = input := rfl

@[simp] theorem Left.value_unread (value : α) :
    (Left.unread value : Left α input).value = value := rfl

@[simp] theorem Left.rest_map (f : α → β) (t : Left α input) : (t.map f).rest = t.rest := rfl

@[simp] theorem Left.rest_widen (t : Left α part) (h : part.length ≤ input.length) :
    (t.widen h).rest = t.rest := rfl

@[simp] theorem Left.rest_behind (t : Left α items) :
    (t.behind : Taken α (item :: items)).rest = t.rest := rfl

@[simp] theorem Left.value_behind (t : Left α items) :
    (t.behind : Taken α (item :: items)).value = t.value := rfl

end

/-- The longest front of items that `p` holds of. -/
def Left.while (p : τ → Bool) (input : List τ) : Left (List τ) input :=
  ⟨input.takeWhile p, input.dropWhile p, (List.dropWhile_sublist p).length_le⟩

end CorpusAnnotator.Text
