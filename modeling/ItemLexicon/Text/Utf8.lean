namespace ItemLexicon.Utf8

def read? (bs : List UInt8) : Option String := String.fromUTF8? ⟨bs.toArray⟩

def isContinuation (b : UInt8) : Bool := b &&& 0xC0 = 0x80

/-- Whether a first byte and a second one can begin a character: the second is a continuation, and
the pair begins no overlong form, no surrogate and no number beyond the last character. -/
def begins (b c : UInt8) : Bool :=
  isContinuation c && !(b = 0xE0 && c < 0xA0) && !(b = 0xED && 0xA0 ≤ c) &&
    !(b = 0xF0 && c < 0x90) && !(b = 0xF4 && 0x90 ≤ c)

def sizeFrom (b : UInt8) : Nat :=
  if b < 0x80 then 1 else if b < 0xC2 then 0 else if b < 0xE0 then 2 else if b < 0xF0 then 3
  else if b < 0xF5 then 4 else 0

def groupSize : List UInt8 → Nat
  | b :: c :: bs =>
    if begins b c then 1 + (((c :: bs).take (sizeFrom b - 1)).takeWhile isContinuation).length
    else 1
  | bs => bs.length

def charOf (bs : List UInt8) : Char :=
  match bs with
  | [] => '\ufffd'
  | b :: cs =>
    if sizeFrom b = bs.length then
      let first := if cs.isEmpty then b.toNat else b.toNat % Nat.pow 2 (6 - cs.length)
      Char.ofNat (cs.foldl (fun n c => n * 64 + (c &&& 0x3F).toNat) first)
    else '\ufffd'

def groups : Nat → List UInt8 → List (List UInt8)
  | 0, _ => []
  | _, [] => []
  | fuel + 1, bs => bs.take (groupSize bs) :: groups fuel (bs.drop (groupSize bs))

def readLossy (bs : List UInt8) : String := String.ofList ((groups bs.length bs).map charOf)

end ItemLexicon.Utf8
