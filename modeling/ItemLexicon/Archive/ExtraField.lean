import ItemLexicon.Archive.Bytes
import ItemLexicon.Text.Utf8

namespace ItemLexicon.Zip

open Bytes

/-- What the directory says about an entry.  The comment is in UTF-8, whatever its bytes in the
archive are; `size` is the size of the contents as they are packed, `fullSize` when unpacked. -/
structure Header where
  rawName : List UInt8
  name : String
  comment : List UInt8
  flags : Nat
  method : Nat
  checksum : Nat
  size : Nat
  fullSize : Nat
  place : Nat
  isSealed : Bool

namespace ExtraField

/-- How reading a field went on: to the bytes after it, to the end of all bytes inside it, or
against the rules for its kind. -/
inductive Progress
  | next (h : Header) (rest : List UInt8)
  | ended (h : Header)
  | broken

def skip (h : Header) (n : Nat) (bs : List UInt8) : Progress :=
  if bs.length < n then .ended h else .next h (bs.drop n)

def wide? (all : Bool) (n : Nat) (bs : List UInt8) : Option (Nat × List UInt8) :=
  if all || n = 0xFFFFFFFF then
    if bs.length < 8 then none else some (field bs 0 8, bs.drop 8)
  else some (n, bs)

def large (size : Nat) (h : Header) (bs : List UInt8) : Progress :=
  let all := decide (24 ≤ size)
  match wide? all h.fullSize bs with
  | none => .ended h
  | some (n, rest) =>
    let h := { h with fullSize := n }
    match wide? all h.size rest with
    | none => .ended h
    | some (n, rest) =>
      let h := { h with size := n }
      match wide? all h.place rest with
      | none => .ended h
      | some (n, rest) =>
        let read := bs.length - rest.length
        if size < read then .broken else skip { h with place := n } (size - read) rest

def fileTimes (size : Nat) (h : Header) (bs : List UInt8) : Progress :=
  if size ≠ 32 then .broken
  else if bs.length < 6 then .ended h
  else if field bs 4 2 ≠ 1 then .broken
  else if bs.length < 8 then .ended h
  else if field bs 6 2 ≠ 24 then .broken
  else skip h 32 bs

def timestamps (size : Nat) (h : Header) (bs : List UInt8) : Progress :=
  let flags := field bs 0 1
  let ones := (List.range 8).countP flags.testBit
  if size = 0 then .broken
  else if bs.isEmpty then .ended h
  else if size ≠ 5 && size ≠ 1 + 4 * ones then .broken
  else if size = 5 then skip h 5 bs
  else skip h (1 + 4 * (List.range 3).countP flags.testBit) bs

def encryption (size : Nat) (h : Header) (bs : List UInt8) : Progress :=
  if size ≠ 7 then .broken
  else if bs.length < 7 then .ended h
  else if field bs 2 2 = 0x4541 && [1, 2].contains (field bs 0 2) &&
      [1, 2, 3].contains (field bs 4 1) then
    .next { h with isSealed := true, method := field bs 5 2 } (bs.drop 7)
  else .broken

def text (size : Nat) (older : List UInt8) (h : Header) (bs : List UInt8)
    (change : List UInt8 → String → Header) : Progress :=
  if bs.length < 5 then .ended h
  else if size < 5 then .broken
  else if bs.length < size then .ended h
  else if field bs 1 4 ≠ (checksum older).toNat then .broken
  else
    let content := slice bs 5 (size - 5)
    match Utf8.read? content with
    | none => .broken
    | some s => .next (change content s) (bs.drop size)

def read (kind size : Nat) (h : Header) (bs : List UInt8) : Progress :=
  match kind with
  | 0x0001 => large size h bs
  | 0x000A => fileTimes size h bs
  | 0x5455 => timestamps size h bs
  | 0x6375 => text size h.comment h bs fun content _ => { h with comment := content }
  | 0x7075 => text size h.rawName h bs fun content s => { h with rawName := content, name := s }
  | 0x9901 => encryption size h bs
  | _ => skip h size bs

def readAll? : Nat → Header → List UInt8 → Option Header
  | 0, h, _ => some h
  | fuel + 1, h, bs =>
    if bs.length < 4 then some h
    else
      match read (field bs 0 2) (field bs 2 2) h (bs.drop 4) with
      | .next h rest => readAll? fuel h rest
      | .ended h => some h
      | .broken => none

end ExtraField

end ItemLexicon.Zip
