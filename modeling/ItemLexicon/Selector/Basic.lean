import ItemLexicon.Match.Item

namespace ItemLexicon

structure Selection where
  types : List Item
  amount : Int
  all : Bool
  shared : Option Metadata

/-- A selection with the sub-selections of its items and of its blocks, as far as they were asked
for.  They are kept until the variants change. -/
structure Selector extends Selection where
  items : Option Selection
  blocks : Option Selection

namespace Selection

def empty : Selection := ⟨[], -1, false, none⟩

/-- The metadata given for all variants, or else that of the first one. -/
def metadata (s : Selection) : Metadata :=
  match s.shared, s.types with
  | some m, _ => m
  | none, i :: _ => i.metadata
  | none, [] => .empty

end Selection

namespace Selector

def ofSelection (s : Selection) : Selector := { s with items := none, blocks := none }

def empty : Selector := ofSelection .empty

def ofItems (items : List Item) : Selector := ofSelection { Selection.empty with types := items }

def everything : Selector := ofSelection { Selection.empty with types := [.anything], all := true }

def count (s : Selector) : Nat := if s.amount < 0 then 1 else s.amount.toNat

def setAmount (s : Selector) (amount : Int) : Selector :=
  { s with
    amount := amount
    items := s.items.map ({ · with amount := amount })
    blocks := s.blocks.map ({ · with amount := amount }) }

def setAll (s : Selector) (all : Bool) : Selector := { s with all := all }

def setTypes (s : Selector) (types : List Item) : Selector :=
  { s with types := types, items := none, blocks := none }

def add (s : Selector) (i : Item) : Selector := s.setTypes (s.types ++ [i])

def addAll (s : Selector) (is : List Item) : Selector := s.setTypes (s.types ++ is)

def remove (s : Selector) (index : Nat) : Selector := s.setTypes (s.types.eraseIdx index)

def retain (s : Selector) (keep : Item → Bool) : Selector := s.setTypes (s.types.filter keep)

def itemsOf (s : Selection) : Selection :=
  { s with types := s.types.map (·.setItemForm true) }

def blocksOf (s : Selection) : Selection := { s with types := s.types.filter Item.isBlock }

def itemForm (s : Selector) : Selection × Selector :=
  let sub := s.items.getD (itemsOf s.toSelection)
  (sub, { s with items := some sub })

def blockForm (s : Selector) : Selection × Selector :=
  let sub := s.blocks.getD (blocksOf s.toSelection)
  (sub, { s with blocks := some sub })

def setMetadata (s : Selector) (m : Metadata) : Selector :=
  { s.setTypes (s.types.map (·.applyMetadata m)) with shared := some m }

def setDurability (s : Selector) (durability : Nat) : Selector :=
  s.setTypes (s.types.map (·.setDurability durability))

def enchant (s : Selector) (es : List Enchantment) : Selector :=
  s.setMetadata (s.toSelection.metadata.enchant es)

def mapMetadata (s : Selector) (f : Metadata → Metadata) : Selector :=
  { s.setTypes (s.types.map fun i => i.setMetadata (f i.metadata)) with
    shared := s.shared.map f }

def disenchant (s : Selector) (es : List Enchantment) : Selector :=
  s.mapMetadata (·.disenchant es)

def clearEnchantments (s : Selector) : Selector :=
  s.mapMetadata fun m => { m with enchantments := [] }

def hasEnchantment (i : Item) (e : Enchantment) : Bool :=
  match Dictionary.get? e.id i.metadata.enchantments with
  | some level => e.level.all (· == level)
  | none => false

def hasEnchantments (s : Selector) (es : List Enchantment) : Bool :=
  !s.types.isEmpty && s.types.all fun i => es.all (hasEnchantment i)

/-- The item is one of the variants. -/
def isOfType (legacy : Bool) (s : Selector) (i : Item) : Bool :=
  s.types.any fun t => t.isSameItem legacy i

def isSupertypeOf (legacy : Bool) (s other : Selector) : Bool :=
  s.types.any Item.isAnything ||
    other.types.all fun o => s.types.any fun t => (o.compare legacy t).isAtLeast .sameItem

/-- The more specific of two items of which one covers the other. -/
def narrower? (legacy : Bool) (a b : Item) : Option Item :=
  if (a.compare legacy b).isAtLeast .sameItem then some a
  else if (b.compare legacy a).isAtLeast .sameItem then some b
  else none

def intersection (legacy : Bool) (s other : Selector) : Selector :=
  ofItems (s.types.flatMap fun a => other.types.filterMap (narrower? legacy a))

def baseType (s : Selector) : Selector := ofItems (s.types.map Item.baseCopy)

def same (s other : Selector) : Bool :=
  s.types.length == other.types.length &&
    (s.types.zip other.types).all (fun p => p.1.same p.2) &&
    s.amount == other.amount && s.all == other.all

end Selector

end ItemLexicon
