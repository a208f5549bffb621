import ItemLexicon.Definition.Noun
import ItemLexicon.Definition.Variation

/-! Expansion of names that refer to variation groups in braces.  The groups are turned like the
wheels of an odometer, the leftmost one fastest. -/

namespace ItemLexicon.Expansion

inductive Slot
  | text (s : List Char)
  | group (g : VariationGroup)

/-- The state of cutting a name into slots: the number of characters read, the text since the last
group, and a brace that is still open with the text from it on. -/
structure Cutter where
  offset : Nat
  before : List Char
  opened : Option (Nat × List Char)

def slots (find : String → Option VariationGroup) (c : Cutter) :
    List Char → List Slot × List Fault
  | [] =>
    match c.opened with
    | none => ([.text c.before], [])
    | some (start, inner) => ([.text (c.before ++ inner)], [.notEnoughBrackets start '\x7b'])
  | '\x7b' :: s =>
    let before :=
      match c.opened with
      | none => c.before
      | some (_, inner) => c.before ++ inner
    slots find ⟨c.offset + 1, before, some (c.offset, ['\x7b'])⟩ s
  | '\x7d' :: s =>
    match c.opened with
    | none =>
      let (rest, faults) := slots find ⟨c.offset + 1, c.before ++ ['\x7d'], none⟩ s
      (rest, .tooManyBrackets c.offset '\x7d' :: faults)
    | some (_, inner) =>
      let name := String.ofList (inner ++ ['\x7d'])
      let (rest, faults) := slots find ⟨c.offset + 1, [], none⟩ s
      match find name with
      | some g => (.text c.before :: .group g :: rest, faults)
      | none => (.text c.before :: rest, .unknownVariation name :: faults)
  | d :: s =>
    match c.opened with
    | none => slots find ⟨c.offset + 1, c.before ++ [d], none⟩ s
    | some (start, inner) => slots find ⟨c.offset + 1, c.before, some (start, inner ++ [d])⟩ s

structure Pick where
  group : VariationGroup
  position : Fin group.size

namespace Pick

def first? (g : VariationGroup) : Option Pick :=
  if h : 0 < g.size then some ⟨g, 0, h⟩ else none

def key (p : Pick) : List Char := (p.group.entries.get p.position).1.toList

def variation (p : Pick) : Variation := (p.group.entries.get p.position).2

def turn (p : Pick) : Pick × Bool :=
  if h : p.position.val + 1 < p.group.size then (⟨p.group, p.position.val + 1, h⟩, false)
  else (⟨p.group, 0, Nat.zero_lt_of_lt p.position.isLt⟩, true)

end Pick

/-- A slot while the combinations are gone through: each group stands at an entry. -/
inductive Reel
  | text (s : List Char)
  | entry (p : Pick)

namespace Reel

def first? : Slot → Option Reel
  | .text s => some (.text s)
  | .group g => (Pick.first? g).map .entry

def size : Reel → Nat
  | .text _ => 1
  | .entry p => p.group.size

end Reel

structure Pass where
  name : List Char
  variation : Variation
  turned : Nat

namespace Pass

def start : Pass := ⟨[], .empty, 0⟩

def read (p : Pass) (index : Nat) : Reel → Pass × Reel
  | .text s =>
    (⟨p.name ++ s, p.variation, if index = p.turned then p.turned + 1 else p.turned⟩, .text s)
  | .entry e =>
    let name := p.name ++ e.key
    let variation := p.variation.absorb e.variation
    if index = p.turned then
      match e.turn with
      | (next, true) => (⟨name, variation, p.turned + 1⟩, .entry next)
      | (next, false) => (⟨name, variation, p.turned⟩, .entry next)
    else (⟨name, variation, p.turned⟩, .entry e)

def run (p : Pass) (index : Nat) : List Reel → Pass × List Reel
  | [] => (p, [])
  | r :: rs =>
    let (p, r) := p.read index r
    let (p, rs) := p.run (index + 1) rs
    (p, r :: rs)

end Pass

/-- The passes from a state of the reels on, each with the state it finds, until all have come
round; at most so many. -/
def passes : Nat → List Reel → List (List Reel × Pass)
  | 0, _ => []
  | fuel + 1, rs =>
    let (p, next) := Pass.start.run 0 rs
    (rs, p) :: if p.turned = rs.length then [] else passes fuel next

def volume (rs : List Reel) : Nat := rs.foldr (fun r n => r.size * n) 1

abbrev Named := List (List Char × Variation)

def put (name : List Char) (v : Variation) : Named → Named
  | [] => [(name, v)]
  | (n, w) :: ns => if n = name then (name, v) :: ns else (n, w) :: put name v ns

def ofSlots (ss : List Slot) : Named :=
  match ss.mapM Reel.first? with
  | none => []
  | some rs =>
    (passes (volume rs) rs).foldl (fun named p => put (Noun.normal p.2.name) p.2.variation named) []

def ofName (find : String → Option VariationGroup) (name : List Char) : Named × List Fault :=
  let (ss, faults) := slots find ⟨0, [], none⟩ name
  (ofSlots ss, faults)

end ItemLexicon.Expansion
