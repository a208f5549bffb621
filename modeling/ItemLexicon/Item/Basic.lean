import ItemLexicon.Item.Block
import ItemLexicon.Item.Metadata

namespace ItemLexicon

structure Item where
  material : Option Nat
  block : Option BlockValues
  /-- The item is held, so it has no block states. -/
  itemForm : Bool
  fromAlias : Bool
  /-- The item matches only items without any data. -/
  plain : Bool
  durabilityGiven : Bool
  tagsGiven : Bool
  durability : Nat
  metadata : Metadata

namespace Item

def anything : Item :=
  ⟨none, none, false, false, false, false, false, 0, .empty⟩

def bare (material : Nat) (info : MaterialInfo) : Item :=
  { anything with
    material := some material
    block := if info.isBlock then some .default else none }

def maxDamage : Nat := 65535

def damageOf? : Tag → Option Nat
  | .int n => some (min n.toNat maxDamage)
  | .float x => some (if x.negative then 0 else min x.truncate maxDamage)
  | _ => none

def cutDamage (tags : Tags) : Option Nat × Tags :=
  match (Dictionary.get? "Damage" tags).bind damageOf? with
  | some n => (some n, Dictionary.erase "Damage" tags)
  | none => (none, tags)

def ofDefinition (material : Nat) (info : MaterialInfo) (tags : Tags) (states : States) : Item :=
  let (damage, tags) := cutDamage tags
  { bare material info with
    durability := damage.getD 0
    durabilityGiven := damage.isSome
    metadata := if tags.isEmpty then .empty else .ofTags tags
    tagsGiven := !tags.isEmpty
    block :=
      if info.isBlock then some (if states.isEmpty then .default else .explicit states) else none
    fromAlias := true }

/-- A held item.  Its tags are always given, and its durability where the material has one. -/
def ofStack (material : Nat) (info : MaterialInfo) (damage : Nat) (tags : Tags) : Item :=
  { bare material info with
    itemForm := true
    durability := damage
    metadata := .ofTags tags
    tagsGiven := true
    durabilityGiven := info.maxDurability != 0 }

def ofBlock (material : Nat) (info : MaterialInfo) (states : States) : Item :=
  { bare material info with block := some (.explicit states) }

def isAnything (i : Item) : Bool := i.material.isNone

def isBlock (i : Item) : Bool := i.block.isSome

def isUnflagged (i : Item) : Bool := !i.durabilityGiven && !i.tagsGiven

/-- The bare variant of a material: nothing was given, and the block states are the default ones. -/
def isDefault (i : Item) : Bool := i.isUnflagged && i.block.all (·.isDefault)

/-- The item can stand for an alias. -/
def isAlias (i : Item) : Bool := i.fromAlias || i.isDefault

def setPlain (i : Item) (plain : Bool) : Item := { i with plain := plain }

def setItemForm (i : Item) (itemForm : Bool) : Item := { i with itemForm := itemForm }

def setMetadata (i : Item) (m : Metadata) : Item :=
  { i with metadata := m, fromAlias := false, tagsGiven := true }

def applyMetadata (i : Item) (m : Metadata) : Item := i.setMetadata (i.metadata.apply m)

def setDurability (i : Item) (durability : Nat) : Item :=
  { i with durability := durability, durabilityGiven := true }

def enchant (i : Item) (es : List Enchantment) : Item := i.setMetadata (i.metadata.enchant es)

def baseCopy (i : Item) : Item :=
  let base := { anything with material := i.material, block := i.block, itemForm := i.itemForm }
  let m := { i.metadata with displayName := none }
  if m.isEmpty then base else base.setMetadata m

def tags (i : Item) : Tags :=
  let tags := i.metadata.toTags
  if i.durabilityGiven then Dictionary.insert "Damage" (.int i.durability) tags else tags

def same (i j : Item) : Bool :=
  i.material == j.material && i.block == j.block && i.itemForm == j.itemForm &&
    i.fromAlias == j.fromAlias && i.plain == j.plain &&
    i.durabilityGiven == j.durabilityGiven && i.tagsGiven == j.tagsGiven &&
    i.durability == j.durability && i.metadata.same j.metadata

def matchesPlainly (i j : Item) : Bool :=
  i.material == j.material &&
    ((i.plain && (j.plain || j.isAlias)) || (i.isAlias && j.plain))

end Item

end ItemLexicon
