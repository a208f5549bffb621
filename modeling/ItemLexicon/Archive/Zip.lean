import ItemLexicon.Archive.CodePage
import ItemLexicon.Archive.Deflate
import ItemLexicon.Archive.EndRecord
import ItemLexicon.Archive.ExtraField
import ItemLexicon.Loading.Source

namespace ItemLexicon.Zip

open Bytes

def entryMark : List UInt8 := [0x50, 0x4B, 3, 4]

def sealedMethod : Nat := 99

def header? (bs : List UInt8) (l : Layout) (place : Nat) : Option (Header × Nat) := do
  guard (directoryMark.isPrefixOf (bs.drop place) && place + 46 ≤ bs.length)
  let flags := field bs (place + 8) 2
  let text := if flags.testBit 11 then Utf8.readLossy else CodePage.read
  let extra := place + 46 + field bs (place + 28) 2
  let comment := extra + field bs (place + 30) 2
  let next := comment + field bs (place + 32) 2
  guard (next ≤ bs.length)
  let rawName := slice bs (place + 46) (extra - (place + 46))
  let fields := slice bs extra (comment - extra)
  let h ← ExtraField.readAll? fields.length {
    rawName := rawName
    name := text rawName
    comment := (text (slice bs comment (next - comment))).toUTF8.toList
    flags := flags
    method := field bs (place + 10) 2
    checksum := field bs (place + 16) 4
    size := field bs (place + 20) 4
    fullSize := field bs (place + 24) 4
    place := field bs (place + 42) 4
    isSealed := false } fields
  guard (h.method ≠ sealedMethod || h.isSealed)
  guard (h.place + l.shift < l.start)
  some ({ h with place := h.place + l.shift }, next)

def headers? (bs : List UInt8) (l : Layout) : Nat → Nat → Option (List Header)
  | 0, _ => some []
  | count + 1, place => do
    let (h, next) ← header? bs l place
    let hs ← headers? bs l count next
    some (h :: hs)

def headers (bs : List UInt8) : Option (List Header) :=
  (layouts bs).findSome? fun l => headers? bs l l.count l.start

/-- The contents of an entry, behind a header of its own.  Stored and deflated contents can be read,
unless encrypted. -/
def contents (bs : List UInt8) (h : Header) : Except Failure String :=
  if h.flags.testBit 0 || h.isSealed then .error .archive
  else if !(entryMark.isPrefixOf (bs.drop h.place)) || bs.length < h.place + 30 then .error .archive
  else
    let start := h.place + 30 + field bs (h.place + 26) 2 + field bs (h.place + 28) 2
    let raw := slice bs start h.size
    match h.method with
    | 0 => check (some raw)
    | 8 => check (Deflate.inflate? raw)
    | _ => .error .archive
where
  check (content : Option (List UInt8)) : Except Failure String :=
    match content with
    | none => .error .unreadable
    | some bytes =>
      if (checksum bytes).toNat ≠ h.checksum then .error .unreadable
      else (Utf8.read? bytes).elim (.error .unreadable) .ok

def distinct : List Header → List Header → List Header
  | seen, [] => seen
  | seen, h :: hs =>
    if seen.any (·.name = h.name) then
      distinct (seen.map fun g => if g.name = h.name then h else g) hs
    else distinct (seen ++ [h]) hs

def entries (bs : List UInt8) : Except Failure (List Source) :=
  match headers bs with
  | none => .error .archive
  | some hs => .ok ((distinct [] hs).map fun h => ⟨h.name, contents bs h⟩)

end ItemLexicon.Zip
