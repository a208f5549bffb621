import ItemLexicon.Archive.Bytes
import ItemLexicon.Archive.PrefixCode

namespace ItemLexicon.Deflate

def bitsOfByte (b : UInt8) : List Bool := (List.range 8).map b.toNat.testBit

def bitsOf (bs : List UInt8) : List Bool := bs.flatMap bitsOfByte

def number? : Nat → List Bool → Option (Nat × List Bool)
  | 0, bits => some (0, bits)
  | _ + 1, [] => none
  | n + 1, b :: bits => (number? n bits).map fun (x, rest) => (2 * x + b.toNat, rest)

def lengthRange (s : Nat) : Nat × Nat :=
  if s < 8 then (3 + s, 0)
  else if s = 28 then (258, 0)
  else (3 + (4 + s % 4) * Nat.pow 2 ((s - 4) / 4), (s - 4) / 4)

def distanceRange (s : Nat) : Nat × Nat :=
  if s < 4 then (1 + s, 0) else (1 + (2 + s % 2) * Nat.pow 2 ((s - 2) / 2), (s - 2) / 2)

def repeated (distance : Nat) : Nat → Array UInt8 → Array UInt8
  | 0, output => output
  | n + 1, output =>
    let b := if output.size < distance then 0 else output[output.size - distance]?.getD 0
    repeated distance n (output.push b)

structure Codes where
  literals : PrefixCode
  distances : PrefixCode

inductive Symbol
  | literal (b : UInt8)
  | stop
  | repetition (length distance : Nat)

def symbol? (codes : Codes) (bits : List Bool) : Option (Symbol × List Bool) := do
  let (s, bits) ← codes.literals.read? bits
  if s < 256 then some (.literal (UInt8.ofNat s), bits)
  else if s = 256 then some (.stop, bits)
  else if 285 < s then none
  else
    let (least, extra) := lengthRange (s - 257)
    let (more, bits) ← number? extra bits
    let (d, bits) ← codes.distances.read? bits
    if 29 < d then none
    else
      let (nearest, extra) := distanceRange d
      let (farther, bits) ← number? extra bits
      some (.repetition (least + more) (nearest + farther), bits)

abbrev Progress := Array UInt8 × List Bool

/-- Reads the symbols of a block.  Each takes at least one bit, so `fuel` bounds their number. -/
def symbols? (codes : Codes) : Nat → Progress → Option Progress
  | 0, _ => none
  | fuel + 1, (output, bits) =>
    match symbol? codes bits with
    | none => none
    | some (.literal b, bits) => symbols? codes fuel (output.push b, bits)
    | some (.stop, bits) => some (output, bits)
    | some (.repetition n distance, bits) =>
      symbols? codes fuel (repeated distance n output, bits)

def fixedCodes : Option Codes := do
  let literals ← PrefixCode.ofSizes?
    (List.replicate 144 8 ++ List.replicate 112 9 ++ List.replicate 24 7 ++ List.replicate 8 8)
  let distances ← PrefixCode.ofSizes? (List.replicate 32 5)
  some ⟨literals, distances⟩

def sizeOrder : List Nat := [16, 17, 18, 0, 8, 7, 9, 6, 10, 5, 11, 4, 12, 3, 13, 2, 14, 1, 15]

def sizes? (code : PrefixCode) (total : Nat) :
    Nat → List Nat → List Bool → Option (List Nat × List Bool)
  | 0, _, _ => none
  | fuel + 1, sizes, bits =>
    if sizes.length = total then some (sizes.reverse, bits)
    else if total < sizes.length then none
    else do
      let (s, bits) ← code.read? bits
      if s < 16 then sizes? code total fuel (s :: sizes) bits
      else if s = 16 then
        let last ← sizes.head?
        let (n, bits) ← number? 2 bits
        sizes? code total fuel (List.replicate (3 + n) last ++ sizes) bits
      else
        let (least, extra) := if s = 17 then (3, 3) else (11, 7)
        let (n, bits) ← number? extra bits
        sizes? code total fuel (List.replicate (least + n) 0 ++ sizes) bits

def shortSizes? : Nat → List Bool → Option (List Nat × List Bool)
  | 0, bits => some ([], bits)
  | n + 1, bits => do
    let (size, bits) ← number? 3 bits
    let (sizes, bits) ← shortSizes? n bits
    some (size :: sizes, bits)

def codes? (bits : List Bool) : Option (Codes × List Bool) := do
  let (a, bits) ← number? 5 bits
  let (b, bits) ← number? 5 bits
  let (c, bits) ← number? 4 bits
  guard (a ≤ 29 && b ≤ 29)
  let (short, bits) ← shortSizes? (4 + c) bits
  let code ← PrefixCode.ofSizes? ((List.range 19).map fun s =>
    ((sizeOrder.zip short).find? (·.1 = s)).elim 0 (·.2))
  guard code.isFull
  let (sizes, bits) ← sizes? code (257 + a + (1 + b)) (bits.length + 2) [] bits
  let literals ← PrefixCode.ofSizes? (sizes.take (257 + a))
  let distances ← PrefixCode.ofSizes? (sizes.drop (257 + a))
  some (⟨literals, distances⟩, bits)

def copy? : Nat → Progress → Option Progress
  | 0, p => some p
  | n + 1, (output, bits) =>
    match number? 8 bits with
    | none => none
    | some (b, bits) => copy? n (output.push (UInt8.ofNat b), bits)

def align (bits : List Bool) : List Bool := bits.drop (bits.length % 8)

def plainBlock? (output : Array UInt8) (bits : List Bool) : Option Progress := do
  let (n, bits) ← number? 16 (align bits)
  let (m, bits) ← number? 16 bits
  guard (n + m = 0xFFFF)
  copy? n (output, bits)

def codedBlock? (codes : Codes) (output : Array UInt8) (bits : List Bool) : Option Progress :=
  symbols? codes (bits.length + 1) (output, bits)

def block? (kind : Nat) (output : Array UInt8) (bits : List Bool) : Option Progress :=
  match kind with
  | 0 => plainBlock? output bits
  | 1 => fixedCodes.bind fun codes => codedBlock? codes output bits
  | 2 => (codes? bits).bind fun (codes, bits) => codedBlock? codes output bits
  | _ => none

def blocks? : Nat → Progress → Option (Array UInt8)
  | 0, _ => none
  | fuel + 1, (output, bits) => do
    let (final, bits) ← number? 1 bits
    let (kind, bits) ← number? 2 bits
    let (output, bits) ← block? kind output bits
    if final = 1 then some output else blocks? fuel (output, bits)

/-- The bytes that a deflated sequence stands for, unless it breaks the rules of the format or ends
before its last block does. -/
def inflate? (bs : List UInt8) : Option (List UInt8) :=
  let bits := bitsOf bs
  (blocks? (bits.length + 1) (#[], bits)).map Array.toList

end ItemLexicon.Deflate
