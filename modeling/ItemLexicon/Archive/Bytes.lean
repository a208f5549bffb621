namespace ItemLexicon.Bytes

def number : List UInt8 → Nat
  | [] => 0
  | b :: bs => b.toNat + 256 * number bs

def slice (bs : List UInt8) (start size : Nat) : List UInt8 := (bs.drop start).take size

def field (bs : List UInt8) (start size : Nat) : Nat := number (slice bs start size)

def checksumStep (c : UInt32) : UInt32 :=
  if c &&& 1 = 1 then (c >>> 1) ^^^ 0xEDB88320 else c >>> 1

def checksumByte (c : UInt32) (b : UInt8) : UInt32 :=
  (List.range 8).foldl (fun c _ => checksumStep c) (c ^^^ b.toUInt32)

def checksum (bs : List UInt8) : UInt32 := bs.foldl checksumByte 0xFFFFFFFF ^^^ 0xFFFFFFFF

end ItemLexicon.Bytes
