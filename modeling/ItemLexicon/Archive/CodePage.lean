namespace ItemLexicon.CodePage

def upperHalf : List Char :=
  ("ÇüéâäàåçêëèïîìÄÅÉæÆôöòûùÿÖÜ¢£¥₧ƒ" ++
    "áíóúñÑªº¿⌐¬½¼¡«»░▒▓│┤╡╢╖╕╣║╗╝╜╛┐" ++
    "└┴┬├─┼╞╟╚╔╩╦╠═╬╧╨╤╥╙╘╒╓╫╪┘┌█▄▌▐▀" ++
    "αßΓπΣσµτΦΘΩδ∞φε∩≡±≥≤⌠⌡÷≈°∙·√ⁿ²■\u00a0").toList

def read (bs : List UInt8) : String :=
  String.ofList (bs.map fun b =>
    if b < 128 then Char.ofNat b.toNat else upperHalf[b.toNat - 128]?.getD '\ufffd')

end ItemLexicon.CodePage
