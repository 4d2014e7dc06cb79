import CorpusAnnotator.Text.Utf8

/-! The characters of a script stand for bytes, one for each; paths and arguments are texts. -/
namespace CorpusAnnotator.Shell

/-- The bytes that the characters of a script stand for. -/
def toBytes (text : List Char) : List UInt8 := text.map fun c => UInt8.ofNat c.toNat

def ofBytes (bytes : List UInt8) : List Char := bytes.map fun b => Char.ofNat b.toNat

/-- A text of a script as a path or an argument. -/
def decoded (text : List Char) : String := String.ofList (Text.Utf8.decodeLenient (toBytes text))

def encoded (s : String) : List Char := ofBytes (Text.Utf8.encode s.toList)

end CorpusAnnotator.Shell
