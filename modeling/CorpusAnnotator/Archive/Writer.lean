import CorpusAnnotator.Archive.Checksum
import CorpusAnnotator.Archive.Record
import CorpusAnnotator.Text.Utf8

/-! Writing an archive of stored entries: regular files that their owner may write and all may read.
Numbers that do not fit the short records are written in the long ones. -/
namespace CorpusAnnotator.Archive

/-- The largest numbers of two and of four bytes. They stand for "see the long record". -/
def longCount : Nat := 0xFFFF

def longOffset : Nat := 0xFFFFFFFF

/-- The kind and the permissions of an entry's file. -/
def fileMode : Nat := 0o100644

/-- The mark that a name is UTF-8, which ASCII names do not need. -/
def nameFlags (name : String) : Nat :=
  if name.toList.all fun c => c.toNat < 128 then 0 else 0x800

/-- The first day of the format's calendar. -/
def firstDay : Nat := 0x21

def describe (name : String) (bytes : List UInt8) : Description where
  version := 10
  flags := nameFlags name
  method := 0
  time := 0
  date := firstDay
  checksum := (Checksum.crc32 bytes).toNat
  compressedSize := bytes.length
  size := bytes.length

def localHeader (name : String) (bytes : List UInt8) : LocalHeader where
  description := describe name bytes
  name := Text.Utf8.encode name.toList
  extra := []

/-- An entry as it lies in the archive: its header and its bytes. -/
def localPart (name : String) (bytes : List UInt8) : List UInt8 :=
  (localHeader name bytes).encode ++ bytes

/-- The numbers that are too large for the header of an entry: its size as it lies in the archive and
as it is, which are the same, and the place of its local header. -/
def largeNumbers (size offset : Nat) : List Nat :=
  (if longOffset ≤ size then [size, size] else []) ++ if longOffset ≤ offset then [offset] else []

/-- The extra field that holds the numbers too large for the header. -/
def largeExtra (size offset : Nat) : List UInt8 :=
  match largeNumbers size offset with
  | [] => []
  | numbers =>
    littleEndian 2 1 ++ littleEndian 2 (8 * numbers.length) ++ numbers.flatMap (littleEndian 8)

/-- The directory entry of an entry whose local header begins at `offset`. -/
def centralHeader (name : String) (bytes : List UInt8) (offset : Nat) : CentralHeader where
  maker := 3 * 256 + 20
  description := describe name bytes
  name := Text.Utf8.encode name.toList
  extra := largeExtra bytes.length offset
  comment := []
  disk := 0
  internalAttributes := 0
  attributes := fileMode * 0x10000
  offset := min offset longOffset

/-- The entries one after another. -/
def localParts (entries : List (String × List UInt8)) : List UInt8 :=
  entries.flatMap fun (name, bytes) => localPart name bytes

/-- The directory of entries, the first of which lies at `offset`. -/
def directory (offset : Nat) : List (String × List UInt8) → List UInt8
  | [] => []
  | (name, bytes) :: rest =>
    (centralHeader name bytes offset).encode ++
      directory (offset + (localPart name bytes).length) rest

/-- The long records, for an archive with numbers too large for the end record. -/
def longEnding (count offset size : Nat) : List UInt8 :=
  if longCount ≤ count ∨ longOffset ≤ offset ∨ longOffset ≤ size then
    LongEndRecord.encode ⟨LongEndRecord.fixedSize - 12, 3 * 256 + 45, 45, 0, 0, count, count,
      size, offset⟩ ++
      Locator.encode ⟨0, offset + size, 1⟩
  else []

def endRecord (count offset size : Nat) : EndRecord :=
  ⟨0, 0, min count longCount, min count longCount, min size longOffset, min offset longOffset, 0⟩

/-- The records after the directory. -/
def ending (count offset size : Nat) : List UInt8 :=
  longEnding count offset size ++ (endRecord count offset size).encode

/-- The archive of named entries. -/
def encode (entries : List (String × List UInt8)) : List UInt8 :=
  let data := localParts entries
  let directory := directory 0 entries
  data ++ directory ++ ending entries.length data.length directory.length

end CorpusAnnotator.Archive
