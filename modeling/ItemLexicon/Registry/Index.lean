import ItemLexicon.Definition.Noun
import ItemLexicon.Match.Item

namespace ItemLexicon

structure AliasName where
  singular : String
  plural : String
  gender : Gender
  deriving DecidableEq

def AliasName.form (n : AliasName) (plural : Bool) : String :=
  if plural then n.plural else n.singular

/-- A registered item.  Its number tells it from every other one that the same registry or one below
it knows. -/
structure Entry where
  serial : Nat
  item : Item
  name : AliasName
  id : String
  relatedEntity : Option String

structure Bucket where
  bare : Option Entry
  alternatives : List Entry

namespace Bucket

def empty : Bucket := ⟨none, []⟩

def isEmpty (b : Bucket) : Bool := b.bare.isNone && b.alternatives.isEmpty

def entries (b : Bucket) : List Entry := b.bare.toList ++ b.alternatives

def add (b : Bucket) (e : Entry) : Bucket :=
  if e.item.isDefault then { b with bare := some e }
  else { b with alternatives := b.alternatives ++ [e] }

end Bucket

structure Match where
  quality : Quality
  entry : Option Entry

namespace Match

def none : Match := ⟨.different, Option.none⟩

def improve (legacy : Bool) (i : Item) (best : Match) (e : Entry) : Match :=
  let q := i.compare legacy e.item
  if q.isBetter best.quality then ⟨q, some e⟩ else best

end Match

namespace Bucket

def bestAlternative (legacy : Bool) (i : Item) (b : Bucket) : Match :=
  b.alternatives.foldl (Match.improve legacy i) .none

/-- The best entry for an item.  An alternative goes before the bare entry only if it matches better
than by its material. -/
def find (legacy : Bool) (i : Item) (b : Bucket) : Match :=
  let best := b.bestAlternative legacy i
  if best.quality.isBetter .sameMaterial then best
  else match b.bare with
    | some e => ⟨i.compare legacy e.item, some e⟩
    | none =>
      match best.entry with
      | some e => ⟨.sameMaterial, some e⟩
      | none => .none

def equal? (legacy : Bool) (i : Item) (b : Bucket) : Option Entry :=
  b.entries.find? fun e => i.compare legacy e.item = .exact

end Bucket

abbrev Index := List (Nat × Bucket)

namespace Index

def bucket? (material : Nat) : Index → Option Bucket
  | [] => none
  | (m, b) :: bs => if m = material then some b else bucket? material bs

def addTo (material : Nat) (e : Entry) : Index → Index
  | [] => [(material, Bucket.empty.add e)]
  | (m, b) :: bs =>
    if m = material then (m, b.add e) :: bs
    else if material < m then (material, Bucket.empty.add e) :: (m, b) :: bs
    else (m, b) :: addTo material e bs

def add (ix : Index) (e : Entry) : Index :=
  match e.item.material with
  | some m => addTo m e ix
  | none => ix

def bucketOf? (ix : Index) (i : Item) : Option Bucket := i.material.bind fun m => bucket? m ix

def find (legacy : Bool) (ix : Index) (i : Item) : Match :=
  match ix.bucketOf? i with
  | some b => b.find legacy i
  | none => .none

def equal? (legacy : Bool) (ix : Index) (i : Item) : Option Entry :=
  (ix.bucketOf? i).bind (Bucket.equal? legacy i)

def entries (ix : Index) : List Entry := ix.flatMap fun b => b.2.entries

def size (ix : Index) : Nat := ix.entries.length

def isEmpty (ix : Index) : Bool := ix.all fun b => b.2.isEmpty

end Index

end ItemLexicon
