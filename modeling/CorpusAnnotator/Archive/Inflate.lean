/-! Decompression of the deflate format. The compressed bytes are read as a list of bits; blocks are
stored, or made of prefix codes for literals, lengths and distances. Input that ends early gives
what it held so far; input that breaks the rules of the format gives nothing. -/
namespace CorpusAnnotator.Archive.Inflate

/-- The bits of bytes, the lowest of each byte first. -/
def bitsOf (bytes : List UInt8) : List Bool :=
  bytes.flatMap fun b => (List.range 8).map fun i => b.toNat.testBit i

/-- Why reading stops before the last block ends. -/
inductive Stop where
  | cut
  | corrupt
  deriving Repr, DecidableEq

/-- The number that `n` bits spell, the lowest first, and the bits after them. -/
def takeBits : (n : Nat) → List Bool → Except Stop (Nat × List Bool)
  | 0, bits => .ok (0, bits)
  | _ + 1, [] => .error .cut
  | n + 1, b :: bits => do
    let (rest, bits) ← takeBits n bits
    return (b.toNat + 2 * rest, bits)

/-! ## Codes -/

/-- A canonical code: how many symbols have each length from one on, and the symbols by length and
then by number. -/
structure Code where
  counts : List Nat
  symbols : List Nat
  deriving Repr, DecidableEq

/-- Code words have at most this many bits. -/
def longestWord : Nat := 15

/-- The code in which symbol `i` has a word of `lengths[i]` bits, or none where that is zero. The
words have to use up all bit strings, unless there is at most one word. -/
def Code.ofLengths? (lengths : List Nat) : Option Code :=
  let counts := (List.range longestWord).map fun i => lengths.count (i + 1)
  let used := counts.foldl (· + ·) 0
  let space := (counts.mapIdx fun i n => n <<< (longestWord - 1 - i)).foldl (· + ·) 0
  if space = 1 <<< longestWord ∨ used ≤ 1 then
    let numbered := lengths.zipIdx
    let symbols := (List.range longestWord).flatMap fun i =>
      numbered.filterMap fun (length, symbol) => if length = i + 1 then some symbol else none
    some ⟨counts, symbols⟩
  else none

/-- Read one symbol. Of the words with the bits read so far, `first` is the number of the first one
of the next length, `offset` counts the shorter symbols, and `word` is the number read. -/
def Code.readFrom (symbols : List Nat) : (counts : List Nat) → (word first offset : Nat) →
    List Bool → Except Stop (Nat × List Bool)
  | [], _, _, _, _ => .error .corrupt
  | _ :: _, _, _, _, [] => .error .cut
  | count :: counts, word, first, offset, b :: bits =>
    let word := 2 * word + b.toNat
    if word < first + count then
      match symbols[offset + (word - first)]? with
      | some symbol => .ok (symbol, bits)
      | none => .error .corrupt
    else readFrom symbols counts word (2 * (first + count)) (offset + count) bits

def Code.read (c : Code) (bits : List Bool) : Except Stop (Nat × List Bool) :=
  Code.readFrom c.symbols c.counts 0 0 0 bits

/-! ## Lengths and distances -/

/-- The base of each length symbol and the number of bits that are added to it. -/
def lengthTable : List (Nat × Nat) :=
  [(3, 0), (4, 0), (5, 0), (6, 0), (7, 0), (8, 0), (9, 0), (10, 0), (11, 1), (13, 1), (15, 1),
    (17, 1), (19, 2), (23, 2), (27, 2), (31, 2), (35, 3), (43, 3), (51, 3), (59, 3), (67, 4),
    (83, 4), (99, 4), (115, 4), (131, 5), (163, 5), (195, 5), (227, 5), (258, 0)]

/-- The base of each distance symbol and the number of bits that are added to it. -/
def distanceTable : List (Nat × Nat) :=
  [(1, 0), (2, 0), (3, 0), (4, 0), (5, 1), (7, 1), (9, 2), (13, 2), (17, 3), (25, 3), (33, 4),
    (49, 4), (65, 5), (97, 5), (129, 6), (193, 6), (257, 7), (385, 7), (513, 8), (769, 8),
    (1025, 9), (1537, 9), (2049, 10), (3073, 10), (4097, 11), (6145, 11), (8193, 12), (12289, 12),
    (16385, 13), (24577, 13)]

def readValue (table : List (Nat × Nat)) (symbol : Nat) (bits : List Bool) :
    Except Stop (Nat × List Bool) := do
  let some (base, extra) := table[symbol]? | throw .corrupt
  let (more, bits) ← takeBits extra bits
  return (base + more, bits)

/-- Repeat `n` bytes from `distance` back; the copy may run into what it has itself written. -/
def copy (distance : Nat) : (n : Nat) → Array UInt8 → Array UInt8
  | 0, out => out
  | n + 1, out => copy distance n (out.push (out[out.size - distance]?.getD 0))

/-- What is left of a reading: the output, and the bits still to be read, or why there are none. -/
structure Progress where
  output : Array UInt8
  rest : Except Stop (List Bool)

/-- The symbol that ends a block. -/
def endOfBlock : Nat := 256

/-- Literals and copies up to the end of a block. Each takes at least one bit, so `fuel` bits of
input suffice. -/
def symbols (literals distances : Code) : (fuel : Nat) → Array UInt8 → List Bool → Progress
  | 0, out, _ => ⟨out, .error .cut⟩
  | fuel + 1, out, bits =>
    match literals.read bits with
    | .error stop => ⟨out, .error stop⟩
    | .ok (symbol, bits) =>
      if symbol < endOfBlock then
        symbols literals distances fuel (out.push (UInt8.ofNat symbol)) bits
      else if symbol = endOfBlock then ⟨out, .ok bits⟩
      else
        let reference : Except Stop (Nat × Nat × List Bool) := do
          let (length, bits) ← readValue lengthTable (symbol - endOfBlock - 1) bits
          let (symbol, bits) ← distances.read bits
          let (distance, bits) ← readValue distanceTable symbol bits
          if out.size < distance then throw .corrupt
          return (length, distance, bits)
        match reference with
        | .error stop => ⟨out, .error stop⟩
        | .ok (length, distance, bits) =>
          symbols literals distances fuel (copy distance length out) bits

/-! ## Blocks -/

/-- The codes of a block that brings none of its own. -/
def fixedCodes? : Option (Code × Code) := do
  let literals ← Code.ofLengths? (List.replicate 144 8 ++ List.replicate 112 9 ++
    List.replicate 24 7 ++ List.replicate 8 8)
  let distances ← Code.ofLengths? (List.replicate 32 5)
  return (literals, distances)

/-- The order in which the lengths of the code for lengths are written. -/
def lengthOrder : List Nat :=
  [16, 17, 18, 0, 8, 7, 9, 6, 10, 5, 11, 4, 12, 3, 13, 2, 14, 1, 15]

def takeLengths : (n : Nat) → List Bool → Except Stop (List Nat × List Bool)
  | 0, bits => .ok ([], bits)
  | n + 1, bits => do
    let (length, bits) ← takeBits 3 bits
    let (lengths, bits) ← takeLengths n bits
    return (length :: lengths, bits)

/-- Read code lengths after those in `done`, last first, until there are `total`. -/
def codeLengths (code : Code) (total : Nat) : (fuel : Nat) → List Nat → List Bool →
    Except Stop (List Nat × List Bool)
  | 0, _, _ => .error .corrupt
  | fuel + 1, done, bits =>
    if total ≤ done.length then
      if done.length = total then .ok (done.reverse, bits) else .error .corrupt
    else do
      let (symbol, bits) ← code.read bits
      if symbol < 16 then codeLengths code total fuel (symbol :: done) bits
      else if symbol = 16 then do
        let some last := done.head? | throw .corrupt
        let (n, bits) ← takeBits 2 bits
        codeLengths code total fuel (List.replicate (3 + n) last ++ done) bits
      else if symbol = 17 then do
        let (n, bits) ← takeBits 3 bits
        codeLengths code total fuel (List.replicate (3 + n) 0 ++ done) bits
      else do
        let (n, bits) ← takeBits 7 bits
        codeLengths code total fuel (List.replicate (11 + n) 0 ++ done) bits

/-- The codes that a block brings. -/
def ownCodes (bits : List Bool) : Except Stop (Code × Code × List Bool) := do
  let (a, bits) ← takeBits 5 bits
  let (b, bits) ← takeBits 5 bits
  let (c, bits) ← takeBits 4 bits
  let literals := a + 257
  let distances := b + 1
  if 286 < literals ∨ 30 < distances then throw .corrupt
  let (raw, bits) ← takeLengths (c + 4) bits
  let pairs := lengthOrder.zip raw
  let lengths := (List.range 19).map fun i => (pairs.lookup i).getD 0
  let some code := Code.ofLengths? lengths | throw .corrupt
  let total := literals + distances
  let (all, bits) ← codeLengths code total (total + 1) [] bits
  let some first := Code.ofLengths? (all.take literals) | throw .corrupt
  let some second := Code.ofLengths? (all.drop literals) | throw .corrupt
  return (first, second, bits)

/-- Copy `n` bytes of a stored block. -/
def storedBytes : (n : Nat) → Array UInt8 → List Bool → Progress
  | 0, out, bits => ⟨out, .ok bits⟩
  | n + 1, out, bits =>
    match takeBits 8 bits with
    | .error stop => ⟨out, .error stop⟩
    | .ok (b, bits) => storedBytes n (out.push (UInt8.ofNat b)) bits

/-- A stored block, from the next whole byte on: its length, that length with every bit turned, and
the bytes. -/
def stored (out : Array UInt8) (bits : List Bool) : Progress :=
  let bits := bits.drop (bits.length % 8)
  let header : Except Stop (Nat × List Bool) := do
    let (n, bits) ← takeBits 16 bits
    let (check, bits) ← takeBits 16 bits
    if n + check ≠ 0xFFFF then throw .corrupt
    return (n, bits)
  match header with
  | .error stop => ⟨out, .error stop⟩
  | .ok (n, bits) => storedBytes n out bits

/-- One block after its mark for the last one, by its kind. -/
def block (out : Array UInt8) (bits : List Bool) : Progress :=
  match takeBits 2 bits with
  | .error stop => ⟨out, .error stop⟩
  | .ok (0, bits) => stored out bits
  | .ok (1, bits) =>
    match fixedCodes? with
    | none => ⟨out, .error .corrupt⟩
    | some (literals, distances) => symbols literals distances (bits.length + 1) out bits
  | .ok (2, bits) =>
    match ownCodes bits with
    | .error stop => ⟨out, .error stop⟩
    | .ok (literals, distances, bits) => symbols literals distances (bits.length + 1) out bits
  | .ok (_, _) => ⟨out, .error .corrupt⟩

/-- Blocks up to the one marked as the last. Each takes at least one bit. -/
def blocks : (fuel : Nat) → Array UInt8 → List Bool → Except Stop (Array UInt8)
  | 0, out, _ => .ok out
  | _ + 1, out, [] => .ok out
  | fuel + 1, out, last :: bits =>
    let p := block out bits
    match p.rest with
    | .error .corrupt => .error .corrupt
    | .error .cut => .ok p.output
    | .ok rest => if last then .ok p.output else blocks fuel p.output rest

/-- The bytes that compressed bytes stand for. -/
def inflate? (bytes : List UInt8) : Option (List UInt8) :=
  let bits := bitsOf bytes
  match blocks (bits.length + 1) #[] bits with
  | .ok out => some out.toList
  | .error _ => none

end CorpusAnnotator.Archive.Inflate
