/-! The character set of archive names that are not marked as UTF-8. Its first half is ASCII. -/
namespace CorpusAnnotator.Archive.CodePage437

/-- The characters of the bytes from 128 on. -/
def upperHalf : String :=
  "ÇüéâäàåçêëèïîìÄÅ" ++
    "ÉæÆôöòûùÿÖÜ¢£¥₧ƒ" ++
    "áíóúñÑªº¿⌐¬½¼¡«»" ++
    "░▒▓│┤╡╢╖╕╣║╗╝╜╛┐" ++
    "└┴┬├─┼╞╟╚╔╩╦╠═╬╧" ++
    "╨╤╥╙╘╒╓╫╪┘┌█▄▌▐▀" ++
    "αßΓπΣσµτΦΘΩδ∞φε∩" ++
    "≡±≥≤⌠⌡÷≈°∙·√ⁿ²■\u00a0"

def decodeByte (b : UInt8) : Char :=
  if b.toNat < 128 then Char.ofNat b.toNat
  else (upperHalf.toList[b.toNat - 128]?).getD '?'

def decode (bytes : List UInt8) : List Char :=
  bytes.map decodeByte

end CorpusAnnotator.Archive.CodePage437
