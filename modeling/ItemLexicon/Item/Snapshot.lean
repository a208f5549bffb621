import ItemLexicon.Item.Basic
import ItemLexicon.Json.Record

namespace ItemLexicon

open Json

structure ItemSnapshot where
  material : String
  flags : Nat
  damage : Nat
  tags : Tags
  states : Option States
  defaultStates : Bool
  itemForm : Bool
  fromAlias : Bool
  plain : Bool

namespace ItemSnapshot

def wildcard : String := "*"

def flagsOf (i : Item) : Nat :=
  (if i.durabilityGiven then 1 else 0) + (if i.tagsGiven then 2 else 0)

def ofItem (p : Platform) (i : Item) : ItemSnapshot where
  material :=
    match i.material with
    | none => wildcard
    | some m => ((p.info? m).map MaterialInfo.id).getD ""
  flags := flagsOf i
  damage := i.durability
  tags := i.metadata.toTags
  states := i.block.map BlockValues.states
  defaultStates := i.block.any (·.isDefault)
  itemForm := i.itemForm
  fromAlias := i.fromAlias
  plain := i.plain

def restore (p : Platform) (s : ItemSnapshot) : Except String Item :=
  if s.material = wildcard then .ok .anything
  else match p.material? s.material with
    | none => .error s.material
    | some m => .ok
      { material := some m
        block := s.states.map fun states => ⟨states, s.defaultStates⟩
        itemForm := s.itemForm
        fromAlias := s.fromAlias
        plain := s.plain
        durabilityGiven := s.flags % 2 == 1
        tagsGiven := s.flags / 2 % 2 == 1
        durability := s.damage
        metadata := .ofTags s.tags }

def statesOf? : Document → Option (Option States)
  | .null => some none
  | d => d.texts?.map some

def ofDocument? (depth : Nat) (d : Document) : Option ItemSnapshot :=
  match d.fields? ["material", "flags", "damage", "tags", "block_states", "default_states",
    "item_form", "alias", "plain"] with
  | some [some material, flags, damage, tags, states, defaultStates, itemForm, fromAlias,
      plain] => do
    return ⟨← material.text?, ← Document.orElse? 0 (Document.natUpTo? 255) flags,
      ← Document.orElse? 0 (Document.natUpTo? 65535) damage,
      ← Document.orElse? [] (Tags.ofDocument? (Tag.maxDepth - depth)) tags,
      ← Document.orElse? none statesOf? states,
      ← Document.orElse? false Document.bool? defaultStates,
      ← Document.orElse? false Document.bool? itemForm,
      ← Document.orElse? false Document.bool? fromAlias,
      ← Document.orElse? false Document.bool? plain⟩
  | _ => none

def ofJson? (s : String) : Option ItemSnapshot := (Document.read? s.toList).bind (ofDocument? 1)

end ItemSnapshot

end ItemLexicon
