/-! The cyclic redundancy check of 32 bits that archives use. Bits are taken lowest first. -/
namespace CorpusAnnotator.Archive.Checksum

/-- The generator, its bits in reverse order. -/
def generator : UInt32 := 0xEDB88320

/-- Divide one bit out of the remainder. -/
def shift (c : UInt32) : UInt32 :=
  if c &&& 1 = 1 then (c >>> 1) ^^^ generator else c >>> 1

/-- Take one byte into the remainder. -/
def step (c : UInt32) (b : UInt8) : UInt32 :=
  shift (shift (shift (shift (shift (shift (shift (shift (c ^^^ b.toUInt32))))))))

def crc32 (bytes : List UInt8) : UInt32 :=
  bytes.foldl step 0xFFFFFFFF ^^^ 0xFFFFFFFF

/-- The check value of the nine digits from one. -/
example : crc32 [49, 50, 51, 52, 53, 54, 55, 56, 57] = 0xCBF43926 := by decide +kernel

end CorpusAnnotator.Archive.Checksum
