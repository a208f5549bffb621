import ItemLexicon.Registry.Basic
import ItemLexicon.Resolution.Enchantments
import ItemLexicon.Resolution.Quantifier

namespace ItemLexicon

/-- Where names are looked up: in the registry of a script if there is one, else in the global
one. -/
structure Context where
  script : Option Registry
  global : Registry

namespace Context

def ofRegistry (r : Registry) : Context := ⟨none, r⟩

def registry (c : Context) : Registry := c.script.getD c.global

def platform (c : Context) : Platform := c.global.platform

def items? (c : Context) (name : List Char) : Option (List Item) :=
  (c.registry.entries? (String.ofList name)).map fun es => es.map Entry.item

def dropWord? (words : List String) (name : List Char) : Option (List Char) :=
  words.findSome? fun w =>
    match Text.dropSuffix? (' ' :: w.toList) name with
    | some (c :: base) => some (c :: base)
    | _ => none

def isHeld (i : Item) : Bool := i.isAnything || !i.isBlock

/-- The name in front of a word for blocks or for items, and which of its items the word keeps. -/
def cutForm? (name : List Char) : Option (List Char × (Item → Bool)) :=
  match dropWord? ["block", "blocks"] name with
  | some base => some (base, Item.isBlock)
  | none => (dropWord? ["item", "items"] name).map fun base => (base, isHeld)

def alias? (c : Context) (name : List Char) : Option (List Item) :=
  let name := (Text.dropPrefix? "any ".toList name).getD name
  match c.items? name with
  | some items => some items
  | none =>
    match cutForm? name with
    | none => none
    | some (base, keep) =>
      match (c.items? base).map (List.filter keep) with
      | some (i :: items) => some (i :: items)
      | _ => none

def air? (c : Context) : Option Item := do
  let m ← c.platform.material? "air"
  let info ← c.platform.info? m
  some (.bare m info)

def type? (c : Context) (name : List Char) : Option (List Item) :=
  if name.isEmpty then c.air?.map fun i => [i]
  else if name.all Char.isDigit then none
  else c.alias? name

def quantified? (c : Context) (q : Quantifier) (name : List Char) : Option Selector :=
  match c.type? name with
  | some (i :: items) => some (q.selector.addAll (i :: items))
  | _ => none

def enchanted? (c : Context) (q : Quantifier) (sides : List Char × List Char) : Option Selector :=
  match c.quantified? q sides.1, Enchantment.readAll? c.platform sides.2 with
  | some s, some es => some (s.enchant es)
  | _, _ => none

/-- The selector that a name stands for.  Of several ways to part the enchantments from the name,
the first counts. -/
def resolve? (c : Context) (text : String) : Option Selector :=
  let text := Text.lower (Text.trim text.toList)
  if text.isEmpty then none
  else if text = ['*'] then some .everything
  else
    let (q, name) := Quantifier.read text
    ((Text.cutsAt " of ".toList name).findSome? (c.enchanted? q)).or (c.quantified? q name)

def list? (c : Context) (text : String) : Option Selector :=
  let text := Text.trim text.toList
  if text.isEmpty then none
  else if text = ['*'] then some .everything
  else
    ((Text.splitOn ',' text).mapM fun part => c.type? (Text.lower (Text.trim part))).map
      fun items => .ofItems items.flatten

end Context

end ItemLexicon
