import CorpusAnnotator.Archive.Checksum
import CorpusAnnotator.Archive.CodePage437
import CorpusAnnotator.Archive.Inflate
import CorpusAnnotator.Archive.Record
import CorpusAnnotator.Text.Utf8

/-! Reading an archive. The end record is looked for from the back; one that does not lead to a
directory in order is passed over for the one before it. Bytes in front of an archive shift all its
offsets. -/
namespace CorpusAnnotator.Archive

/-! ## Finding records -/

/-- Where `pattern` occurs in `bytes`, which begin at `index`, in increasing order. -/
def occurrencesFrom (pattern : List UInt8) (index : Nat) : List UInt8 → List Nat
  | [] => []
  | b :: rest =>
    let later := occurrencesFrom pattern (index + 1) rest
    if pattern.isPrefixOf (b :: rest) then index :: later else later

def occurrences (pattern bytes : List UInt8) : List Nat :=
  occurrencesFrom pattern 0 bytes

/-- Where the directory is: the number of bytes in front of the archive, the place of the first
central header, and the number of entries. -/
structure Directory where
  shift : Nat
  start : Nat
  entries : Nat
  disk : Nat
  directoryDisk : Nat
  deriving Repr, DecidableEq

/-- The places from `low` on at which a record with this signature begins, so that the signature
ends by `high`. -/
def placesBetween (signature low high : Nat) (bytes : List UInt8) : List Nat :=
  (occurrencesFrom (littleEndian 4 signature) low (bytes.drop low)).filter fun i => i + 4 ≤ high

/-- The directory that a long end record describes, looked for from the place that its locator
names. -/
def longDirectory? (bytes : List UInt8) (locatorPlace : Nat) (l : Locator) : Option Directory :=
  if locatorPlace ≤ l.offset ∨ 1 < l.disks then none
  else
    let places := placesBetween longEndSignature l.offset locatorPlace bytes
    places.findSome? fun place => do
      let r ← LongEndRecord.decode? (bytes.drop place)
      if r.directoryDisk ≠ l.directoryDisk then none
      else if r.recordSize + 12 ≠ locatorPlace - place then none
      else if place < r.entries * CentralHeader.fixedSize + r.directoryOffset then none
      else if r.entries < r.entriesHere then none
      else
        let shift := place - l.offset
        return ⟨shift, r.directoryOffset + shift, r.entries, r.disk, r.directoryDisk⟩

/-- The directory that the end record at a place describes. -/
def directoryAt? (bytes : List UInt8) (place : Nat) : Option Directory := do
  let r ← EndRecord.decode? (bytes.drop place)
  let locator? : Option Locator :=
    if r.entries = 0xFFFF ∨ r.directoryOffset = 0xFFFFFFFF then
      if place < Locator.size then none else Locator.decode? (bytes.drop (place - Locator.size))
    else none
  match locator? with
  | some l => longDirectory? bytes (place - Locator.size) l
  | none =>
    let of (shift : Nat) : Directory :=
      ⟨shift, r.directoryOffset + shift, r.entriesHere, r.disk, r.directoryDisk⟩
    if r.entries = 0 then return of (place - r.directoryOffset)
    else if place ≤ r.directoryOffset then none
    else
      let start ← (placesBetween centralSignature r.directoryOffset place bytes).head?
      return of (start - r.directoryOffset)

/-! ## Extra fields -/

/-- What extra fields can change about an entry: its sizes and its place when they are too large for
the header, and its name when it is given once more as UTF-8. -/
structure Particulars where
  size : Nat
  compressedSize : Nat
  offset : Nat
  nameBytes : List UInt8
  isUtf8 : Bool
  deriving Repr, DecidableEq

/-- A number of the header, or the large one in front of some bytes where the header says to look
for it or `all` are there. -/
def large? (all : Bool) (old : Nat) (bytes : List UInt8) : Option (Nat × List UInt8) :=
  if all || old = 0xFFFFFFFF then number? 8 bytes else some (old, bytes)

/-- The field with large numbers, of `length` bytes: those numbers that the header says to look for,
or all three. -/
def Particulars.withLarge (p : Particulars) (length : Nat) (field : List UInt8) :
    Option Particulars := do
  let (size, field) ← large? (24 ≤ length) p.size field
  let (compressedSize, field) ← large? (24 ≤ length) p.compressedSize field
  let (offset, _) ← large? (24 ≤ length) p.offset field
  return { p with size, compressedSize, offset }

/-- The field with the name as UTF-8: a version, the checksum of the name in the header, the name.
-/
def Particulars.withName (p : Particulars) (field : List UInt8) : Option Particulars := do
  if p.isUtf8 then return p
  let (_, field) ← number? 1 field
  let (check, name) ← number? 4 field
  if check ≠ (Checksum.crc32 p.nameBytes).toNat then none
  else
    let _ ← Text.Utf8.decode? name
    return { p with nameBytes := name, isUtf8 := true }

/-- Whether a field with times holds as many as its first byte says, or the one time that a
directory keeps. -/
def timesFit (length : Nat) (field : List UInt8) : Bool :=
  match field with
  | [] => false
  | flags :: _ =>
    let n := flags.toNat
    n < 8 && (length = 5 || length = 1 + 4 * (n % 2 + n / 2 % 2 + n / 4 % 2))

/-- Read extra fields one after another; `fuel` is their number at most. -/
def Particulars.withExtra : (fuel : Nat) → Particulars → List UInt8 → Option Particulars
  | 0, p, _ => some p
  | fuel + 1, p, bytes =>
    if bytes.length < 2 then some p
    else do
      let (kind, rest) ← number? 2 bytes
      let (length, rest) ← number? 2 rest
      let (field, rest) ← bytes? length rest
      let p ←
        if kind = 0x0001 then p.withLarge length field
        else if kind = 0x7075 then p.withName field
        else if kind = 0x5455 then (if timesFit length field then some p else none)
        else some p
      withExtra fuel p rest

/-! ## Entries -/

/-- An entry. `data` is as it lies in the archive; `mode` is the kind and permissions of the file,
where the writing system tells them. -/
structure Entry where
  name : String
  encrypted : Bool
  method : Nat
  checksum : Nat
  data : List UInt8
  mode : Option Nat
  deriving Repr, DecidableEq

/-- Why the content of an entry cannot be had. The first two are found when it is opened, the others
when it is read. -/
inductive EntryError where
  | encrypted
  | unknownMethod
  | corrupt
  | badChecksum
  deriving Repr, DecidableEq

def EntryError.message : EntryError → String
  | .encrypted => "unsupported Zip archive: Password required to decrypt file"
  | .unknownMethod => "unsupported Zip archive: Compression method not supported"
  | .corrupt => "corrupt deflate stream"
  | .badChecksum => "Invalid checksum"

/-- Names that end so stand for directories. -/
def Entry.isDirectory (e : Entry) : Bool :=
  match e.name.toList.getLast? with
  | some c => c = '/' || c = '\\'
  | none => false

/-- Whether an entry can be opened. -/
def Entry.open (e : Entry) : Except EntryError Unit :=
  if e.encrypted then .error .encrypted
  else if e.method ≠ 0 ∧ e.method ≠ 8 then .error .unknownMethod
  else .ok ()

/-- The bytes of an entry that has been opened. -/
def Entry.content (e : Entry) : Except EntryError (List UInt8) := do
  let bytes ←
    if e.method = 8 then
      match Inflate.inflate? e.data with
      | some bytes => pure bytes
      | none => throw .corrupt
    else pure e.data
  if (Checksum.crc32 bytes).toNat = e.checksum then return bytes else throw .badChecksum

/-- The mode of a file, from what the system that wrote the entry says about it. -/
def modeOf (system attributes : Nat) : Option Nat :=
  if attributes = 0 then none
  else if system = 3 then some (attributes / 0x10000)
  else if system = 0 then
    let mode := if attributes.testBit 4 then 0o40775 else 0o100664
    some (if attributes.testBit 0 then mode &&& 0o0555 else mode)
  else none

/-- The entry of a central header. Its local header and the start of its data have to lie before the
directory. -/
def entry? (bytes : List UInt8) (d : Directory) (h : CentralHeader) : Option Entry := do
  let c := h.description
  let p : Particulars := ⟨c.size, c.compressedSize, h.offset, h.name, c.flags.testBit 11⟩
  let p ← p.withExtra h.extra.length h.extra
  let start := p.offset + d.shift
  if d.start ≤ start then none
  else
    let headerSize ← LocalHeader.size? (bytes.drop start)
    if d.start < start + headerSize then none
    else
      let name :=
        if p.isUtf8 then Text.Utf8.decodeLenient p.nameBytes else CodePage437.decode p.nameBytes
      return {
        name := String.ofList name
        encrypted := c.flags.testBit 0
        method := c.method
        checksum := c.checksum
        data := (bytes.drop (start + headerSize)).take p.compressedSize
        mode := modeOf (h.maker / 256) h.attributes }

/-- The entries of `n` central headers in front of `rest`. -/
def entries? (bytes : List UInt8) (d : Directory) : (n : Nat) → List UInt8 → Option (List Entry)
  | 0, _ => some []
  | n + 1, rest => do
    let (h, rest) ← CentralHeader.decode? rest
    let e ← entry? bytes d h
    let es ← entries? bytes d n rest
    return e :: es

/-- Keep one entry for each name: at the place of the first of that name, the last. -/
def distinct (entries : List Entry) : List Entry :=
  entries.foldl add []
where
  add (kept : List Entry) (e : Entry) : List Entry :=
    if kept.any fun k => k.name = e.name then
      kept.map fun k => if k.name = e.name then e else k
    else kept ++ [e]

/-- The entries that the directory lists whose end record stands at a place. -/
def listedAt? (bytes : List UInt8) (place : Nat) : Option (List Entry) := do
  let d ← directoryAt? bytes place
  if d.disk ≠ d.directoryDisk then none
  else entries? bytes d d.entries (bytes.drop d.start)

/-- The entries that the directory of an archive lists; none if the bytes are no archive. -/
def listed? (bytes : List UInt8) : Option (List Entry) :=
  (occurrences (littleEndian 4 endSignature) bytes).reverse.findSome? (listedAt? bytes)

/-- The entries of an archive, one for each name. -/
def decode? (bytes : List UInt8) : Option (List Entry) :=
  (listed? bytes).map distinct

end CorpusAnnotator.Archive
