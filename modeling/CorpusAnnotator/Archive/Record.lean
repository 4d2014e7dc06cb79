/-! The records of an archive: in front of the data of each entry a local header, after all data a
directory with one central header for each entry, and an end record that says where the directory
is. Numbers are written with the lowest byte first. Each record has an encoder and a decoder. -/
namespace CorpusAnnotator.Archive

/-! ## Numbers -/

/-- A number in `n` bytes. -/
def littleEndian : (n : Nat) → Nat → List UInt8
  | 0, _ => []
  | n + 1, v => UInt8.ofNat (v % 256) :: littleEndian n (v / 256)

/-- The number in the first `n` bytes, and the bytes after them. -/
def number? : (n : Nat) → List UInt8 → Option (Nat × List UInt8)
  | 0, bytes => some (0, bytes)
  | _ + 1, [] => none
  | n + 1, b :: bytes => (number? n bytes).map fun (v, rest) => (b.toNat + 256 * v, rest)

theorem length_littleEndian (n v : Nat) : (littleEndian n v).length = n := by
  induction n generalizing v with
  | zero => rfl
  | succ n ih => simp [littleEndian, ih]

theorem number?_littleEndian {n v : Nat} (h : v < Nat.pow 256 n) (rest : List UInt8) :
    number? n (littleEndian n v ++ rest) = some (v, rest) := by
  induction n generalizing v with
  | zero => simp [number?, littleEndian] at *; omega
  | succ n ih =>
    have hv : v / 256 < Nat.pow 256 n := by
      have h : v < Nat.pow 256 n * 256 := h
      exact Nat.div_lt_of_lt_mul (by omega)
    simp [number?, littleEndian, ih hv]
    omega

/-- The first `n` bytes, and the bytes after them. -/
def bytes? (n : Nat) (bytes : List UInt8) : Option (List UInt8 × List UInt8) :=
  if bytes.length < n then none else some (bytes.take n, bytes.drop n)

/-- The bytes after a signature. -/
def after? (signature : Nat) (bytes : List UInt8) : Option (List UInt8) := do
  let (found, rest) ← number? 4 bytes
  if found = signature then some rest else none

/-! ## Local headers -/

def localSignature : Nat := 0x04034b50

/-- What the local and the central header of an entry both say. -/
structure Description where
  version : Nat
  flags : Nat
  method : Nat
  time : Nat
  date : Nat
  checksum : Nat
  compressedSize : Nat
  size : Nat
  deriving Repr, DecidableEq

def Description.encode (d : Description) : List UInt8 :=
  littleEndian 2 d.version ++ littleEndian 2 d.flags ++ littleEndian 2 d.method ++
    littleEndian 2 d.time ++ littleEndian 2 d.date ++ littleEndian 4 d.checksum ++
    littleEndian 4 d.compressedSize ++ littleEndian 4 d.size

def Description.decode? (bytes : List UInt8) : Option (Description × List UInt8) := do
  let (version, bytes) ← number? 2 bytes
  let (flags, bytes) ← number? 2 bytes
  let (method, bytes) ← number? 2 bytes
  let (time, bytes) ← number? 2 bytes
  let (date, bytes) ← number? 2 bytes
  let (checksum, bytes) ← number? 4 bytes
  let (compressedSize, bytes) ← number? 4 bytes
  let (size, bytes) ← number? 4 bytes
  return (⟨version, flags, method, time, date, checksum, compressedSize, size⟩, bytes)

structure LocalHeader where
  description : Description
  name : List UInt8
  extra : List UInt8
  deriving Repr, DecidableEq

def LocalHeader.encode (h : LocalHeader) : List UInt8 :=
  littleEndian 4 localSignature ++ h.description.encode ++ littleEndian 2 h.name.length ++
    littleEndian 2 h.extra.length ++ h.name ++ h.extra

/-- The number of bytes of a local header without its name and its extra fields. -/
def LocalHeader.fixedSize : Nat := 30

/-- The number of bytes of the local header in front of `bytes`. Its name and its extra fields need
not all be there. -/
def LocalHeader.size? (bytes : List UInt8) : Option Nat := do
  let bytes ← after? localSignature bytes
  let (_, bytes) ← Description.decode? bytes
  let (nameLength, bytes) ← number? 2 bytes
  let (extraLength, _) ← number? 2 bytes
  return fixedSize + nameLength + extraLength

/-! ## Central headers -/

def centralSignature : Nat := 0x02014b50

/-- A directory entry. `maker` is the system and version that wrote it, `attributes` what that
system says about the file, and `offset` where the local header begins. -/
structure CentralHeader where
  maker : Nat
  description : Description
  name : List UInt8
  extra : List UInt8
  comment : List UInt8
  disk : Nat
  internalAttributes : Nat
  attributes : Nat
  offset : Nat
  deriving Repr, DecidableEq

def CentralHeader.encode (h : CentralHeader) : List UInt8 :=
  littleEndian 4 centralSignature ++ littleEndian 2 h.maker ++ h.description.encode ++
    littleEndian 2 h.name.length ++ littleEndian 2 h.extra.length ++
    littleEndian 2 h.comment.length ++ littleEndian 2 h.disk ++
    littleEndian 2 h.internalAttributes ++ littleEndian 4 h.attributes ++
    littleEndian 4 h.offset ++ h.name ++ h.extra ++ h.comment

/-- The number of bytes of a central header without its variable parts. -/
def CentralHeader.fixedSize : Nat := 46

def CentralHeader.decode? (bytes : List UInt8) : Option (CentralHeader × List UInt8) := do
  let bytes ← after? centralSignature bytes
  let (maker, bytes) ← number? 2 bytes
  let (description, bytes) ← Description.decode? bytes
  let (nameLength, bytes) ← number? 2 bytes
  let (extraLength, bytes) ← number? 2 bytes
  let (commentLength, bytes) ← number? 2 bytes
  let (disk, bytes) ← number? 2 bytes
  let (internalAttributes, bytes) ← number? 2 bytes
  let (attributes, bytes) ← number? 4 bytes
  let (offset, bytes) ← number? 4 bytes
  let (name, bytes) ← bytes? nameLength bytes
  let (extra, bytes) ← bytes? extraLength bytes
  let (comment, bytes) ← bytes? commentLength bytes
  return (⟨maker, description, name, extra, comment, disk, internalAttributes, attributes, offset⟩,
    bytes)

/-! ## End records -/

def endSignature : Nat := 0x06054b50

/-- The end of an archive that is small enough for short numbers. -/
structure EndRecord where
  disk : Nat
  directoryDisk : Nat
  entriesHere : Nat
  entries : Nat
  directorySize : Nat
  directoryOffset : Nat
  commentLength : Nat
  deriving Repr, DecidableEq

def EndRecord.size : Nat := 22

def EndRecord.encode (r : EndRecord) : List UInt8 :=
  littleEndian 4 endSignature ++ littleEndian 2 r.disk ++ littleEndian 2 r.directoryDisk ++
    littleEndian 2 r.entriesHere ++ littleEndian 2 r.entries ++ littleEndian 4 r.directorySize ++
    littleEndian 4 r.directoryOffset ++ littleEndian 2 r.commentLength

/-- The end record in front of `bytes`, if its comment ends with them or before. -/
def EndRecord.decode? (bytes : List UInt8) : Option EndRecord := do
  let bytes ← after? endSignature bytes
  let (disk, bytes) ← number? 2 bytes
  let (directoryDisk, bytes) ← number? 2 bytes
  let (entriesHere, bytes) ← number? 2 bytes
  let (entries, bytes) ← number? 2 bytes
  let (directorySize, bytes) ← number? 4 bytes
  let (directoryOffset, bytes) ← number? 4 bytes
  let (commentLength, bytes) ← number? 2 bytes
  if bytes.length < commentLength then none
  else return ⟨disk, directoryDisk, entriesHere, entries, directorySize, directoryOffset,
    commentLength⟩

/-! ## Long end records -/

def longEndSignature : Nat := 0x06064b50

/-- The end of an archive whose numbers need more room. -/
structure LongEndRecord where
  recordSize : Nat
  maker : Nat
  version : Nat
  disk : Nat
  directoryDisk : Nat
  entriesHere : Nat
  entries : Nat
  directorySize : Nat
  directoryOffset : Nat
  deriving Repr, DecidableEq

/-- The number of bytes of a long end record without extensions. -/
def LongEndRecord.fixedSize : Nat := 56

def LongEndRecord.encode (r : LongEndRecord) : List UInt8 :=
  littleEndian 4 longEndSignature ++ littleEndian 8 r.recordSize ++ littleEndian 2 r.maker ++
    littleEndian 2 r.version ++ littleEndian 4 r.disk ++ littleEndian 4 r.directoryDisk ++
    littleEndian 8 r.entriesHere ++ littleEndian 8 r.entries ++ littleEndian 8 r.directorySize ++
    littleEndian 8 r.directoryOffset

def LongEndRecord.decode? (bytes : List UInt8) : Option LongEndRecord := do
  let bytes ← after? longEndSignature bytes
  let (recordSize, bytes) ← number? 8 bytes
  let (maker, bytes) ← number? 2 bytes
  let (version, bytes) ← number? 2 bytes
  let (disk, bytes) ← number? 4 bytes
  let (directoryDisk, bytes) ← number? 4 bytes
  let (entriesHere, bytes) ← number? 8 bytes
  let (entries, bytes) ← number? 8 bytes
  let (directorySize, bytes) ← number? 8 bytes
  let (directoryOffset, _) ← number? 8 bytes
  return ⟨recordSize, maker, version, disk, directoryDisk, entriesHere, entries, directorySize,
    directoryOffset⟩

def locatorSignature : Nat := 0x07064b50

/-- Where the long end record is; it stands right before the short one. -/
structure Locator where
  directoryDisk : Nat
  offset : Nat
  disks : Nat
  deriving Repr, DecidableEq

def Locator.size : Nat := 20

def Locator.encode (r : Locator) : List UInt8 :=
  littleEndian 4 locatorSignature ++ littleEndian 4 r.directoryDisk ++ littleEndian 8 r.offset ++
    littleEndian 4 r.disks

def Locator.decode? (bytes : List UInt8) : Option Locator := do
  let bytes ← after? locatorSignature bytes
  let (directoryDisk, bytes) ← number? 4 bytes
  let (offset, bytes) ← number? 8 bytes
  let (disks, _) ← number? 4 bytes
  return ⟨directoryDisk, offset, disks⟩

end CorpusAnnotator.Archive
