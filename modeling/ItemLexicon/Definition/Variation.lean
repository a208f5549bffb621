import ItemLexicon.Definition.Segment

namespace ItemLexicon

structure Variation where
  id : Option String
  insertPoint : Option Nat
  tags : Tags
  states : States

namespace Variation

def empty : Variation := ⟨none, none, [], []⟩

def hyphenAt (id : List Char) : Option Nat := (Text.cut '-' id).map fun p => Text.byteLength p.1

theorem hyphenAt_eq_some_iff {id : List Char} {n : Nat} : hyphenAt id = some n ↔
    ∃ before after, id = before ++ '-' :: after ∧ '-' ∉ before ∧ Text.byteLength before = n := by
  simp only [hyphenAt, Option.map_eq_some_iff, Prod.exists, Text.cut_eq_some_iff, and_assoc]

def idOf (s : List Char) : Option (List Char) :=
  match Text.trim s with
  | [] => none
  | ['-'] => none
  | id => some id

def cutTags (item : List Char) : Except Fault (List Char × Tags) :=
  match Text.cut '\x7b' item with
  | none => .ok (item, [])
  | some ([], _) => .error (.missingTagId (String.ofList item))
  | some (before, rest) =>
    let raw := String.ofList ('\x7b' :: rest)
    match Tags.read raw with
    | .ok tags => .ok (Text.trimEnd before, tags)
    | .error cause => .error (.invalidTags raw cause)

def cutStates (s : List Char) : Except Fault (List Char × States) :=
  match Text.cut '[' s with
  | none => .ok (s, [])
  | some ([], _) => .error (.missingStateId (String.ofList s))
  | some (before, rest) =>
    match Text.dropSuffix? [']'] rest with
    | none => .error (.notEnoughBrackets before.length '[')
    | some inner => (States.read inner).map fun states => (before, states)

def read (s : List Char) : Except Fault Variation := do
  let (rest, tags) ← cutTags (Text.trim s)
  let (name, states) ← cutStates rest
  let id := idOf name
  return ⟨id.map String.ofList, id.bind hyphenAt, tags, states⟩

def isUseless (v : Variation) : Bool := v.id.isNone && v.tags.isEmpty && v.states.isEmpty

def dropHyphen (s : List Char) : List Char :=
  match Text.dropSuffix? ['-'] s with
  | some t => t
  | none => s

/-- Puts an id in the place of the hyphen of this one, or in place of the whole. -/
def insertId (v : Variation) (inserted : Option String) : Option String :=
  match inserted with
  | none => v.id
  | some inserted =>
    let inserted := dropHyphen inserted.toList
    match v.id, v.insertPoint with
    | some id, some point =>
      some (String.ofList
        (Text.takeBytes point id.toList ++ inserted ++ Text.dropBytes (point + 1) id.toList))
    | _, _ => some (String.ofList inserted)

/-- Inserts the id of another variation and adds its tags and states where this one has none of that
key. -/
def merge (v other : Variation) : Variation :=
  ⟨v.insertId other.id, none, Dictionary.merge other.tags v.tags,
    Dictionary.merge other.states v.states⟩

/-- Lays another variation over this one. -/
def absorb (v other : Variation) : Variation :=
  ⟨other.id.or v.id, other.insertPoint.or v.insertPoint, Dictionary.merge v.tags other.tags,
    Dictionary.merge v.states other.states⟩

end Variation

structure VariationGroup where
  entries : List (String × Variation)

namespace VariationGroup

def defaultKey : String := "\x7bdefault\x7d"

def empty : VariationGroup := ⟨[]⟩

def push (g : VariationGroup) (key : String) (v : Variation) : VariationGroup :=
  ⟨g.entries ++ [(if key = defaultKey then "" else key, v)]⟩

def size (g : VariationGroup) : Nat := g.entries.length

def get? (g : VariationGroup) (key : String) : Option Variation := Dictionary.get? key g.entries

end VariationGroup

end ItemLexicon
