/-! UTF-8. Bytes are read as a sequence of pieces: characters, and stretches that no character
starts with. Strict decoding refuses the first broken stretch and says where it lies; lenient
decoding puts the replacement character in place of each. -/
namespace CorpusAnnotator.Text.Utf8

def encode (cs : List Char) : List UInt8 :=
  cs.flatMap String.utf8EncodeChar

/-- A stretch of bytes. A broken stretch is the longest start of some character that its bytes
hold, or a single byte that starts none; `cut` says that the input ended inside it. -/
inductive Piece where
  | char (c : Char)
  | broken (length : Nat) (cut : Bool)
  deriving Repr, DecidableEq

/-- Where reading stands: between characters, or inside one. Inside, `read` bytes have given
`value`, `owed` are missing after the next, and the next lies in `low` to `high`. -/
inductive State where
  | start
  | inside (read value owed low high : Nat)
  deriving Repr, DecidableEq

/-- The first byte of a character: the pieces it completes and the state after it. The bounds on
the second byte keep out long forms, surrogates and code points past the last. -/
def lead (b : Nat) : List Piece × State :=
  if b < 0x80 then ([.char (Char.ofNat b)], .start)
  else if b < 0xC2 then ([.broken 1 false], .start)
  else if b < 0xE0 then ([], .inside 1 (b - 0xC0) 0 0x80 0xBF)
  else if b = 0xE0 then ([], .inside 1 0 1 0xA0 0xBF)
  else if b = 0xED then ([], .inside 1 0xD 1 0x80 0x9F)
  else if b < 0xF0 then ([], .inside 1 (b - 0xE0) 1 0x80 0xBF)
  else if b = 0xF0 then ([], .inside 1 0 2 0x90 0xBF)
  else if b < 0xF4 then ([], .inside 1 (b - 0xF0) 2 0x80 0xBF)
  else if b = 0xF4 then ([], .inside 1 4 2 0x80 0x8F)
  else ([.broken 1 false], .start)

/-- One byte. A byte that cannot go on with the character begun breaks it off and starts anew. -/
def step : State → Nat → List Piece × State
  | .start, b => lead b
  | .inside read value owed low high, b =>
    if low ≤ b ∧ b ≤ high then
      let value := value * 64 + (b - 0x80)
      match owed with
      | 0 => ([.char (Char.ofNat value)], .start)
      | owed + 1 => ([], .inside (read + 1) value owed 0x80 0xBF)
    else
      let (more, state) := lead b
      (.broken read false :: more, state)

def piecesFrom : State → List UInt8 → List Piece
  | .start, [] => []
  | .inside read _ _ _ _, [] => [.broken read true]
  | state, b :: rest => (step state b.toNat).1 ++ piecesFrom (step state b.toNat).2 rest

def pieces (bytes : List UInt8) : List Piece :=
  piecesFrom .start bytes

/-- Why bytes are not UTF-8: the broken stretch that comes first. -/
structure Error where
  index : Nat
  length : Nat
  cut : Bool
  deriving Repr, DecidableEq

def Error.message (e : Error) : String :=
  if e.cut then s!"incomplete utf-8 byte sequence from index {e.index}"
  else s!"invalid utf-8 sequence of {e.length} bytes from index {e.index}"

/-- The characters of the pieces, which start at byte `index`. -/
def collect : Nat → List Piece → Except Error (List Char)
  | _, [] => .ok []
  | index, .char c :: rest => (collect (index + c.utf8Size) rest).map (c :: ·)
  | index, .broken length cut :: _ => .error ⟨index, length, cut⟩

def decode (bytes : List UInt8) : Except Error (List Char) :=
  collect 0 (pieces bytes)

def decode? (bytes : List UInt8) : Option (List Char) :=
  (decode bytes).toOption

/-- The replacement character. -/
def replacement : Char := '\ufffd'

def Piece.lenient : Piece → Char
  | .char c => c
  | .broken _ _ => replacement

def decodeLenient (bytes : List UInt8) : List Char :=
  (pieces bytes).map Piece.lenient

end CorpusAnnotator.Text.Utf8
