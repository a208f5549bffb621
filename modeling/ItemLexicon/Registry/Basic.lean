import ItemLexicon.Definition.Variation
import ItemLexicon.Registry.Index
import ItemLexicon.Selector.Basic

/-! Registries: aliases by name and items by material.  A registry may stand over others, in which
it looks for what it does not have itself. -/

namespace ItemLexicon

structure Scope where
  names : Dictionary Nat
  selectors : List (List Entry)
  groups : Dictionary VariationGroup
  index : Index
  materials : List Nat
  nextSerial : Nat

namespace Scope

def empty (nextSerial : Nat) : Scope := ⟨[], [], [], [], [], nextSerial⟩

def entries? (s : Scope) (name : String) : Option (List Entry) :=
  (Dictionary.get? name s.names).map fun n => s.selectors[n]?.getD []

def mark (s : Scope) (material : Nat) : Scope :=
  if s.materials.contains material then s else { s with materials := s.materials ++ [material] }

def enter (s : Scope) (item : Item) (name : AliasName) (id : String)
    (relatedEntity : Option String) : Entry × Scope :=
  let e := ⟨s.nextSerial, item, name, id, relatedEntity⟩
  (e, { s with index := s.index.add e, nextSerial := s.nextSerial + 1 })

/-- The selector that the forms of a name are bound to, the singular first, or a new one. -/
def selectorFor (s : Scope) (singular plural : String) : Nat × Scope :=
  match (Dictionary.get? singular s.names).or (Dictionary.get? plural s.names) with
  | some n => (n, s)
  | none => (s.selectors.length, { s with selectors := s.selectors ++ [[]] })

def bind (s : Scope) (name : AliasName) (es : List Entry) : Scope :=
  let singular := Text.lowercase name.singular
  let plural := Text.lowercase name.plural
  let (n, s) := s.selectorFor singular plural
  { s with
    names := Dictionary.insert plural n (Dictionary.insert singular n s.names)
    selectors := s.selectors.modify n (· ++ es) }

end Scope

structure Registry where
  platform : Platform
  scope : Scope
  parents : List Scope

namespace Registry

def empty (p : Platform) : Registry := ⟨p, .empty 0, []⟩

def layer (r : Registry) : Registry := ⟨r.platform, .empty r.scope.nextSerial, r.scope :: r.parents⟩

def scopes (r : Registry) : List Scope := r.scope :: r.parents

def entries? (r : Registry) (name : String) : Option (List Entry) :=
  r.scopes.findSome? fun s => s.entries? (Text.lowercase name)

def contains (r : Registry) (name : String) : Bool := (r.entries? name).isSome

def lookup (r : Registry) (name : String) : Option Selector :=
  (r.entries? name).map fun es => .ofItems (es.map Entry.item)

def group? (r : Registry) (name : String) : Option VariationGroup :=
  r.scopes.findSome? fun s => Dictionary.get? name s.groups

def addGroup (r : Registry) (name : String) (g : VariationGroup) : Registry :=
  { r with scope := { r.scope with groups := Dictionary.insert name g r.scope.groups } }

def hasMaterial (r : Registry) (material : Nat) : Bool :=
  r.scopes.any fun s => s.materials.contains material

def find (r : Registry) (i : Item) : Match := r.scope.index.find r.platform.legacy i

def equal? (r : Registry) (i : Item) : Option Entry := r.scope.index.equal? r.platform.legacy i

/-- The entry that describes an item best, from the first registry that has one. -/
def describing? (r : Registry) (i : Item) : Option Entry :=
  r.scopes.findSome? fun s => (s.index.find r.platform.legacy i).entry

def nameOf? (r : Registry) (i : Item) : Option AliasName := (r.describing? i).map Entry.name

def idOf? (r : Registry) (i : Item) : Option String := (r.describing? i).map Entry.id

def relatedEntityOf? (r : Registry) (i : Item) : Option String :=
  (r.describing? i).bind Entry.relatedEntity

def aliasCount (r : Registry) : Nat := r.scope.names.length

def clear (r : Registry) : Registry := { r with scope := .empty r.scope.nextSerial }

def relatedEntityState : String := "relatedEntity"

def entryFor (r : Registry) (name : AliasName) (id : String) (item : Item)
    (relatedEntity : Option String) : Entry × Registry :=
  match r.equal? item with
  | some e => (e, r)
  | none =>
    let (e, s) := r.scope.enter item name id relatedEntity
    (e, { r with scope := s })

/-- The entries that an id stands for: those of the alias of that name, or else one for the item
that the definition describes.  The material counts as mentioned even if the definition is
refused. -/
def entriesFor (r : Registry) (name : AliasName) (id : String) (tags : Tags) (states : States) :
    Except Fault (List Entry) × Registry :=
  match r.entries? id with
  | some es => (.ok es, r)
  | none =>
    match r.platform.material? id with
    | none => (.error (.invalidMinecraftId id), r)
    | some m =>
      match r.platform.info? m with
      | none => (.error (.invalidMinecraftId id), r)
      | some info =>
        let r := { r with scope := r.scope.mark m }
        let entity := Dictionary.get? relatedEntityState states
        let states := Dictionary.erase relatedEntityState states
        if !info.isBlock && !states.isEmpty then (.error (.statesOnItem id), r)
        else
          let (e, r) := r.entryFor name id (.ofDefinition m info tags states) entity
          (.ok [e], r)

def addAlias (r : Registry) (name : AliasName) (id : String) (tags : Tags) (states : States) :
    Option Fault × Registry :=
  match r.entriesFor name id tags states with
  | (.error fault, r) => (some fault, r)
  | (.ok es, r) => (none, { r with scope := r.scope.bind name es })

def numbered (r : Registry) : List Entry := r.scopes.flatMap fun s => s.index.entries

def number? (r : Registry) (e : Entry) : Option Nat :=
  r.numbered.findIdx? (·.serial == e.serial)

end Registry

end ItemLexicon
