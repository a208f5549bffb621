import ItemLexicon.Platform.Basic
import ItemLexicon.Tag.Basic
import ItemLexicon.Tag.Printer

namespace ItemLexicon

/-- Metadata that belongs to one sort of item. -/
inductive MetadataKind
  | plain
  | potion (base : Option String) (effects : Option Tag)
  | spawnEgg (entity : Option String)
  | skull (owner : Option Tag)
  | container (items : List Tag)

structure Metadata where
  displayName : Option String
  lore : Option (List String)
  enchantments : Dictionary Nat
  hideFlags : Nat
  kind : MetadataKind
  extra : Tags

def Tag.sameOption : Option Tag → Option Tag → Bool
  | none, none => true
  | some a, some b => a.same b
  | _, _ => false

namespace MetadataKind

def same : MetadataKind → MetadataKind → Bool
  | .plain, .plain => true
  | .potion b e, .potion b' e' => b == b' && Tag.sameOption e e'
  | .spawnEgg e, .spawnEgg e' => e == e'
  | .skull o, .skull o' => Tag.sameOption o o'
  | .container is, .container is' => Tag.sameItems is is'
  | _, _ => false

def isPlain : MetadataKind → Bool
  | .plain => true
  | _ => false

end MetadataKind

namespace Metadata

def empty : Metadata := ⟨none, none, [], 0, .plain, []⟩

def same (m n : Metadata) : Bool :=
  m.displayName == n.displayName && m.lore == n.lore && m.enchantments == n.enchantments &&
    m.hideFlags == n.hideFlags && m.kind.same n.kind && Tag.sameEntries m.extra n.extra

def isEmpty (m : Metadata) : Bool := m.same empty

def enchant (m : Metadata) (es : List Enchantment) : Metadata :=
  { m with
    enchantments := es.foldl (fun d e => Dictionary.insert e.id e.effectiveLevel d) m.enchantments }

def disenchant (m : Metadata) (es : List Enchantment) : Metadata :=
  { m with enchantments := es.foldl (fun d e => Dictionary.erase e.id d) m.enchantments }

def apply (m other : Metadata) : Metadata :=
  { m with
    lore := other.lore.or m.lore
    displayName := other.displayName.or m.displayName
    enchantments := Dictionary.merge m.enchantments other.enchantments
    hideFlags := m.hideFlags ||| other.hideFlags }

def wordLimit : Nat := Nat.pow 2 32 - 1

def word? : Tag → Option Nat
  | .int n => if 0 ≤ n && n ≤ wordLimit then some n.toNat else none
  | _ => none

def child? (key : String) : Tag → Option Tag
  | .compound entries => Dictionary.get? key entries
  | _ => none

def enchantmentOf? (t : Tag) : Option (String × Nat) :=
  match child? "id" t with
  | some (.text id) =>
    match child? "lvl" t with
    | none => some (namespaced id, 1)
    | some level => (word? level).map fun n => (namespaced id, n)
  | _ => none

def nameOf? : Tag → Option String
  | .text s => some s
  | _ => none

def loreOf? : Tag → Option (List String)
  | .list lines => some (lines.map Tag.display)
  | _ => none

def displayRest (entries : Tags) : Tags :=
  entries.filter fun (k, t) =>
    !((k == "Name" && (nameOf? t).isSome) || (k == "Lore" && (loreOf? t).isSome))

/-- What is left of a tag besides the typed fields. -/
def rest? (key : String) (t : Tag) : Option Tag :=
  if key = "display" then
    match t with
    | .compound entries =>
      match displayRest entries with
      | [] => none
      | es => some (.compound es)
    | t => some t
  else if key = "Enchantments" || key = "Items" then
    match t with
    | .list _ => none
    | t => some t
  else if key = "HideFlags" then
    match word? t with
    | some _ => none
    | none => some t
  else if key = "Potion" || key = "CustomPotionEffects" || key = "SkullOwner" then none
  else if key = "EntityTag" then
    match t with
    | .compound (a :: b :: es) => some (.compound (a :: b :: es))
    | _ => none
  else some t

def extraOf : Tags → Tags
  | [] => []
  | (k, t) :: es =>
    match rest? k t with
    | some t => (k, t) :: extraOf es
    | none => extraOf es

/-- The kind of item that tags describe.  Of several kinds a potion goes before a skull, a skull
before a container, and a container before a spawn egg. -/
def kindOf (tags : Tags) : MetadataKind :=
  match Dictionary.get? "Potion" tags, Dictionary.get? "CustomPotionEffects" tags with
  | some potion, effects => .potion (some potion.display) effects
  | none, some effects => .potion none (some effects)
  | none, none =>
    match Dictionary.get? "SkullOwner" tags with
    | some owner => .skull (some owner)
    | none =>
      match Dictionary.get? "Items" tags with
      | some (.list items) => .container items
      | _ =>
        match Dictionary.get? "EntityTag" tags with
        | some t => .spawnEgg ((child? "id" t).bind Tag.text?)
        | none => .plain

def enchantmentsOf : Option Tag → Dictionary Nat
  | some (.list entries) => Dictionary.ofList (entries.filterMap enchantmentOf?)
  | _ => []

def ofTags (tags : Tags) : Metadata where
  displayName := ((Dictionary.get? "display" tags).bind (child? "Name")).bind nameOf?
  lore := ((Dictionary.get? "display" tags).bind (child? "Lore")).bind loreOf?
  enchantments := enchantmentsOf (Dictionary.get? "Enchantments" tags)
  hideFlags := ((Dictionary.get? "HideFlags" tags).bind word?).getD 0
  kind := kindOf tags
  extra := extraOf tags

def entriesOf : Option Tag → Tags
  | some (.compound entries) => entries
  | _ => []

def setSome (key : String) (value : Option Tag) (tags : Tags) : Tags :=
  match value with
  | some t => Dictionary.insert key t tags
  | none => tags

def displayTags (m : Metadata) (tags : Tags) : Tags :=
  if m.displayName.isNone && m.lore.isNone then tags
  else
    Dictionary.insert "display"
      (.compound (setSome "Lore" (m.lore.map fun lines => .list (lines.map .text))
        (setSome "Name" (m.displayName.map .text) (entriesOf (Dictionary.get? "display" tags)))))
      tags

def enchantmentTag (e : String × Nat) : Tag :=
  .compound [("id", .text e.1), ("lvl", .int e.2)]

def enchantmentTags (m : Metadata) (tags : Tags) : Tags :=
  if m.enchantments.isEmpty then tags
  else Dictionary.insert "Enchantments" (.list (m.enchantments.map enchantmentTag)) tags

def hideFlagTags (m : Metadata) (tags : Tags) : Tags :=
  if m.hideFlags = 0 then tags else Dictionary.insert "HideFlags" (.int m.hideFlags) tags

def kindTags (m : Metadata) (tags : Tags) : Tags :=
  match m.kind with
  | .plain => tags
  | .potion base effects =>
    setSome "CustomPotionEffects" effects (setSome "Potion" (base.map .text) tags)
  | .spawnEgg entity =>
    Dictionary.insert "EntityTag"
      (.compound (setSome "id" (entity.map .text) (entriesOf (Dictionary.get? "EntityTag" tags))))
      tags
  | .skull owner => setSome "SkullOwner" owner tags
  | .container items => Dictionary.insert "Items" (.list items) tags

def toTags (m : Metadata) : Tags :=
  m.kindTags (m.hideFlagTags (m.enchantmentTags (m.displayTags m.extra)))

end Metadata

end ItemLexicon
