import ItemLexicon.Archive.Bytes

/-! The end of an archive in the ZIP format, from which the archive is read.  What is too large for
the record there stands in a larger one, to which a locator between the two points. -/

namespace ItemLexicon.Zip

open Bytes

def endMark : List UInt8 := [0x50, 0x4B, 5, 6]
def largeEndMark : List UInt8 := [0x50, 0x4B, 6, 6]
def locatorMark : List UInt8 := [0x50, 0x4B, 6, 7]
def directoryMark : List UInt8 := [0x50, 0x4B, 1, 2]

def placesOf (mark : List UInt8) : Nat → List UInt8 → List Nat
  | _, [] => []
  | start, b :: bs =>
    if mark.isPrefixOf (b :: bs) then start :: placesOf mark (start + 1) bs
    else placesOf mark (start + 1) bs

def placesBetween (mark bs : List UInt8) (first last : Nat) : List Nat :=
  placesOf mark first (slice bs first (last - first))

/-- Where the directory begins, how many headers are in it, and how far places are shifted. -/
structure Layout where
  start : Nat
  count : Nat
  shift : Nat

structure EndRecord where
  place : Nat
  disk : Nat
  directoryDisk : Nat
  countHere : Nat
  count : Nat
  directory : Nat

def endRecord? (bs : List UInt8) (place : Nat) : Option EndRecord :=
  if bs.length < place + 22 + field bs (place + 20) 2 then none
  else some {
    place := place
    disk := field bs (place + 4) 2
    directoryDisk := field bs (place + 6) 2
    countHere := field bs (place + 8) 2
    count := field bs (place + 10) 2
    directory := field bs (place + 16) 4 }

def EndRecord.plainLayout? (bs : List UInt8) (e : EndRecord) : Option Layout := do
  guard (e.disk = e.directoryDisk)
  if e.count = 0 then
    let shift := e.place - e.directory
    some ⟨e.directory + shift, e.countHere, shift⟩
  else
    guard (e.directory < e.place)
    let start ← (placesBetween directoryMark bs e.directory e.place).head?
    some ⟨start, e.countHere, start - e.directory⟩

structure Locator where
  place : Nat
  disk : Nat
  record : Nat
  disks : Nat

def EndRecord.locator? (bs : List UInt8) (e : EndRecord) : Option Locator :=
  let place := e.place - 20
  if (e.count = 0xFFFF || e.directory = 0xFFFFFFFF) && 20 ≤ e.place &&
      locatorMark.isPrefixOf (bs.drop place) then
    some {
      place := place
      disk := field bs (place + 4) 4
      record := field bs (place + 8) 8
      disks := field bs (place + 16) 4 }
  else none

structure LargeEndRecord where
  place : Nat
  size : Nat
  version : Nat
  versionNeeded : Nat
  disk : Nat
  directoryDisk : Nat
  countHere : Nat
  count : Nat
  directory : Nat

def largeEndRecord? (bs : List UInt8) (place : Nat) : Option LargeEndRecord :=
  if bs.length < place + 56 then none
  else some {
    place := place
    size := field bs (place + 4) 8
    version := field bs (place + 12) 2
    versionNeeded := field bs (place + 14) 2
    disk := field bs (place + 16) 4
    directoryDisk := field bs (place + 20) 4
    countHere := field bs (place + 24) 8
    count := field bs (place + 32) 8
    directory := field bs (place + 48) 8 }

def LargeEndRecord.belongsTo (r : LargeEndRecord) (l : Locator) : Bool :=
  44 ≤ r.size && r.place + 12 + r.size = l.place && r.directoryDisk = l.disk &&
    r.directory + 46 * r.count ≤ r.place

def Locator.layout? (bs : List UInt8) (l : Locator) : Option Layout := do
  guard (l.record < l.place && l.disks ≤ 1)
  let records := (placesBetween largeEndMark bs l.record l.place).filterMap (largeEndRecord? bs)
  let r ← records.find? (·.belongsTo l)
  guard (r.countHere ≤ r.count && r.versionNeeded ≤ r.version && r.disk = r.directoryDisk)
  let shift := r.place - l.record
  some ⟨r.directory + shift, r.count, shift⟩

def EndRecord.layout? (bs : List UInt8) (e : EndRecord) : Option Layout :=
  match e.locator? bs with
  | some l => l.layout? bs
  | none => e.plainLayout? bs

/-- The layouts that the end records of an archive describe, the last record first. -/
def layouts (bs : List UInt8) : List Layout :=
  (placesOf endMark 0 bs).reverse.filterMap fun place => endRecord? bs place >>= (·.layout? bs)

end ItemLexicon.Zip
