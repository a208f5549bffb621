import ItemLexicon.Proofs.Binding
import ItemLexicon.Proofs.BracketPlaces
import ItemLexicon.Proofs.CountedSweeps
import ItemLexicon.Proofs.InsertionPoints
import ItemLexicon.Proofs.LoadedRegistry

/-! Loading with all numbers checked before they are used: handles, insertion points, counters,
places and depths.  It is the same as loading without the checks. -/

namespace ItemLexicon

namespace Text

def splitBytes? : Nat → List Char → Option (List Char × List Char)
  | 0, s => some ([], s)
  | _ + 1, [] => none
  | n + 1, c :: s =>
    if c.utf8Size ≤ n + 1 then (splitBytes? (n + 1 - c.utf8Size) s).map fun p => (c :: p.1, p.2)
    else none

theorem splitBytes?_append (s t : List Char) :
    splitBytes? (byteLength s) (s ++ t) = some (s, t) := by
  induction s with
  | nil => rw [List.nil_append, byteLength, splitBytes?]
  | cons c s ih =>
    obtain ⟨n, hn⟩ := Nat.exists_eq_add_one_of_ne_zero
      (Nat.ne_of_gt (Nat.add_pos_left c.utf8Size_pos (byteLength s)))
    have rest : n + 1 - c.utf8Size = byteLength s := by omega
    rw [byteLength, hn, List.cons_append, splitBytes?, if_pos (by omega), rest, ih]
    rfl

end Text

namespace Variation

def insertId? (v : Variation) (inserted : Option String) : Option (Option String) :=
  match inserted with
  | none => some v.id
  | some inserted =>
    let inserted := dropHyphen inserted.toList
    match v.id, v.insertPoint with
    | some id, some point => do
      let (before, rest) ← Text.splitBytes? point id.toList
      let (_, after) ← Text.splitBytes? (point + 1) id.toList
      if rest = '-' :: after then return some (String.ofList (before ++ inserted ++ after)) else none
    | _, _ => some (some (String.ofList inserted))

def merge? (v other : Variation) : Option Variation :=
  (v.insertId? other.id).map fun id => { v.merge other with id := id }

theorem IsPlaced.insertId?_eq {v : Variation} (h : v.IsPlaced) (inserted : Option String) :
    v.insertId? inserted = some (v.insertId inserted) := by
  cases inserted with
  | none => rfl
  | some new =>
    cases hp : v.insertPoint with
    | none =>
      rw [Variation.insertId?, Variation.insertId, hp]
      cases v.id <;> rfl
    | some point =>
      obtain ⟨id, before, after, hid, whole, rfl, inserts⟩ := h.insertId hp new
      have behind : Text.splitBytes? (Text.byteLength before + 1) (before ++ '-' :: after) =
          some (before ++ ['-'], after) := by
        have cut := Text.splitBytes?_append (before ++ ['-']) after
        rwa [Text.byteLength_append, ← List.append_cons] at cut
      rw [inserts, Variation.insertId?, hid, hp]
      simp only [whole, Text.splitBytes?_append, behind, Option.bind_eq_bind, Option.bind_some,
        if_true]
      rfl

theorem IsPlaced.merge?_eq {v : Variation} (h : v.IsPlaced) (other : Variation) :
    v.merge? other = some (v.merge other) := by
  rw [Variation.merge?, h.insertId?_eq]
  rfl

end Variation

namespace Scope

/-- All handles that are stored under names. -/
def HandlesHold (s : Scope) : Prop :=
  ∀ key ∈ s.names.keys, ∀ n ∈ s.handle? key, n < s.selectors.length

instance (s : Scope) : Decidable s.HandlesHold :=
  inferInstanceAs (Decidable (∀ key ∈ s.names.keys, ∀ n ∈ s.handle? key, n < s.selectors.length))

def lookUp? (s : Scope) (key : String) : Option (Option (List Entry)) :=
  match s.handle? key with
  | none => some none
  | some n => s.selectors[n]?.map some

def lookUpIn? (key : String) : List Scope → Option (Option (List Entry))
  | [] => some none
  | s :: ss => do
    match ← s.lookUp? key with
    | some es => return some es
    | none => lookUpIn? key ss

def bind? (s : Scope) (name : AliasName) (es : List Entry) : Option Scope := do
  let singular := Text.lowercase name.singular
  let plural := Text.lowercase name.plural
  let (n, s) := s.selectorFor singular plural
  let listed ← s.selectors[n]?
  return { s with
    names := Dictionary.insert plural n (Dictionary.insert singular n s.names)
    selectors := s.selectors.set n (listed ++ es) }

theorem Bound.handlesHold {s : Scope} (h : s.Bound) : s.HandlesHold :=
  fun key _ n hn => (h key n hn).1

theorem Bound.lookUp?_eq {s : Scope} (h : s.Bound) (key : String) :
    s.lookUp? key = some (s.entries? key) := by
  rw [lookUp?, entries?_eq]
  cases hn : s.handle? key with
  | none => rfl
  | some n =>
    have there := List.getElem?_eq_getElem (h key n hn).1
    simp only [there, Option.map_some, listAt, Option.getD_some]

theorem lookUpIn?_eq {ss : List Scope} (h : ∀ s ∈ ss, s.Bound) (key : String) :
    lookUpIn? key ss = some (ss.findSome? fun s => s.entries? key) := by
  induction ss with
  | nil => rfl
  | cons s ss ih =>
    obtain ⟨first, rest⟩ := List.forall_mem_cons.mp h
    rw [lookUpIn?, first.lookUp?_eq, List.findSome?_cons]
    cases s.entries? key with
    | none => exact ih rest
    | some es => rfl

theorem Bound.bind?_eq {s : Scope} (h : s.Bound) (name : AliasName) (es : List Entry) :
    s.bind? name es = some (s.bind name es) := by
  have there := target_lt h name
  rw [bind?, bind_eq_of_forms]
  simp only [selectorFor_forms, List.getElem?_eq_getElem there, List.modify_eq_set_getElem?]
  rfl

end Scope

namespace Registry

def HandlesHold (r : Registry) : Prop := ∀ s ∈ r.scopes, s.HandlesHold

instance (r : Registry) : Decidable r.HandlesHold :=
  inferInstanceAs (Decidable (∀ s ∈ r.scopes, s.HandlesHold))

def entriesFor? (r : Registry) (name : AliasName) (id : String) (tags : Tags) (states : States) :
    Option (Except Fault (List Entry) × Registry) := do
  match ← Scope.lookUpIn? (Text.lowercase id) r.scopes with
  | some es => return (.ok es, r)
  | none => return r.entriesFor name id tags states

def addAlias? (r : Registry) (name : AliasName) (id : String) (tags : Tags) (states : States) :
    Option (Option Fault × Registry) :=
  if r.HandlesHold then do
    match ← r.entriesFor? name id tags states with
    | (.error fault, r) => return (some fault, r)
    | (.ok es, r) =>
      let s ← r.scope.bind? name es
      return (none, { r with scope := s })
  else none

variable {r : Registry}

theorem Reachable.handlesHold (h : r.Reachable) : r.HandlesHold :=
  fun s hs => (h.bound s hs).handlesHold

theorem Reachable.addAlias (h : r.Reachable) (name : AliasName) (id : String) (tags : Tags)
    (states : States) : (r.addAlias name id tags states).2.Reachable :=
  h.apply (.register ⟨name, id, tags, states⟩)

theorem sameNames_entriesFor (r : Registry) (name : AliasName) (id : String) (tags : Tags)
    (states : States) : (r.entriesFor name id tags states).2.scope.SameNames r.scope := by
  have marked (m : Nat) := Scope.SameNames.mark r.scope m
  rw [entriesFor]
  cases r.entries? id with
  | some es => exact ⟨rfl, rfl⟩
  | none =>
    cases r.platform.material? id with
    | none => exact ⟨rfl, rfl⟩
    | some m =>
      cases info : r.platform.info? m with
      | none =>
        simp only [info]
        exact ⟨rfl, rfl⟩
      | some info' =>
        simp only [info]
        split
        · exact marked m
        · rw [entryFor]
          split
          · exact marked m
          · exact ⟨(marked m).names, (marked m).selectors⟩

theorem Bound.entriesFor?_eq (h : r.Bound) (name : AliasName) (id : String) (tags : Tags)
    (states : States) :
    r.entriesFor? name id tags states = some (r.entriesFor name id tags states) := by
  rw [entriesFor?, Scope.lookUpIn?_eq h]
  cases known : r.scopes.findSome? fun s => s.entries? (Text.lowercase id) with
  | none => rfl
  | some es =>
    rw [entriesFor, show r.entries? id = some es from known]
    rfl

theorem Reachable.addAlias?_eq (h : r.Reachable) (name : AliasName) (id : String) (tags : Tags)
    (states : States) : r.addAlias? name id tags states = some (r.addAlias name id tags states) := by
  rw [Registry.addAlias?, if_pos h.handlesHold, h.bound.entriesFor?_eq, Registry.addAlias]
  have same := r.sameNames_entriesFor name id tags states
  cases found : r.entriesFor name id tags states with
  | mk result r' =>
    rw [found] at same
    cases result with
    | error fault => rfl
    | ok es =>
      have bound := (same.bound (h.bound _ List.mem_cons_self)).bind?_eq name es
      simp only [Option.bind_eq_bind, Option.bind_some, bound]
      rfl

end Registry

namespace Loader

def expand? (l : Loader) (pattern : String) : Option (Pattern.Expansion × Loader) :=
  (l.expander.expand? pattern.toList).map fun r => (r.1, { l with expander := r.2 })

def addItem? (p : Place) (name : AliasName) (v : Variation) (l : Loader) (item : Variation) :
    Option Loader := do
  let merged ← item.merge? v
  match merged.id with
  | none => return l.report p (.emptyAlias name.singular)
  | some id =>
    match ← l.registry.addAlias? name (Text.lowercase id) merged.tags merged.states with
    | (none, r) => return { l with registry := r }
    | (some fault, r) => return { l with registry := r }.report p fault

def addExpanded? (p : Place) (items : List Variation) (l : Loader)
    (named : List Char × Variation) : Option Loader :=
  let (name, faults) := aliasName named.1
  let l := l.reportAll p faults
  match name with
  | none => some l
  | some name =>
    if items.isEmpty then some (l.report p (.emptyAlias name.singular))
    else items.foldlM (addItem? p name named.2) l

def addName? (p : Place) (items : List Variation) (l : Loader) (name : List Char) :
    Option Loader := do
  let (named, faults) ← Expansion.countedName? l.registry.group? name
  named.foldlM (addExpanded? p items) (l.reportAll p faults)

def addAlias? (l : Loader) (p : Place) (pattern : String) (data : String) : Option Loader :=
  if (Text.trim pattern.toList).isEmpty then some (l.report p .emptyName)
  else do
    let (items, faults) := definitions (Segment.nonEmpty ',' data.toList)
    let (expansion, l) ← (l.reportAll p faults).expand? pattern
    expansion.names.foldlM (addName? p items) (l.reportAll p expansion.faults)

def addVariation? (p : Place) (l : Loader) (g : VariationGroup) (key value : String) :
    Option (Loader × VariationGroup) :=
  match Variation.read value.toList with
  | .error fault => some (l.report p fault, g)
  | .ok v => do
    let l :=
      if key ≠ VariationGroup.defaultKey ∧ v.isUseless then l.report p (.uselessVariation key)
      else l
    let (expansion, l) ← l.expand? key
    return (l.reportAll p expansion.faults,
      expansion.names.foldl (fun g k => g.push (entryKey k) v) g)

def variations? (source : Option String) (l : Loader) (g : VariationGroup) :
    List Outline.Node → Option (Loader × VariationGroup)
  | [] => some (l, g)
  | .entry key value line :: ns => do
    let (l, g) ← l.addVariation? ⟨source, line⟩ g key value
    variations? source l g ns
  | .heading _ line _ :: ns =>
    variations? source (l.report ⟨source, line⟩ .unexpectedSection) g ns

def nodes? (source : Option String) (l : Loader) : List Outline.Node → Option Loader
  | [] => some l
  | .heading key line children :: ns =>
    if isBraced key then do
      let (l, g) ← variations? source l .empty children
      nodes? source { l with registry := l.registry.addGroup key g } ns
    else nodes? source (l.report ⟨source, line⟩ (.invalidVariationSection key)) ns
  | .entry key value line :: ns =>
    match l.conditions.check key value with
    | some true => nodes? source l ns
    | some false => some l
    | none => do
      let l ← l.addAlias? ⟨source, line⟩ key value
      nodes? source l ns

def outline? (source : Option String) (l : Loader) : List Outline.Node → Option Loader
  | [] => some l
  | .heading _ _ children :: ns => do
    let l ← nodes? source l children
    outline? source l ns
  | .entry _ _ line :: ns => outline? source (l.report ⟨source, line⟩ .outsideSection) ns

def text? (l : Loader) (source : Option String) (text : String) : Option Loader :=
  let (ns, faults) := Outline.read text
  outline? source (faults.foldl (fun l f => l.report ⟨source, f.1⟩ f.2) l) ns

def texts (l : Loader) (ts : List (Option String × String)) : Loader :=
  ts.foldl (fun l t => l.text t.1 t.2) l

def texts? (l : Loader) (ts : List (Option String × String)) : Option Loader :=
  ts.foldlM (fun l t => l.text? t.1 t.2) l

/-- A checked step has come to the same loader as the step itself, and the registry of that is one
that comes about by registrations. -/
structure Agrees (checked : Option Loader) (l : Loader) : Prop where
  eq : checked = some l
  reachable : l.registry.Reachable

variable {l : Loader}

theorem reachable_reportAll (h : l.registry.Reachable) (p : Place) (faults : List Fault) :
    (l.reportAll p faults).registry.Reachable := by
  have kept : (l.reportAll p faults).registry = l.registry :=
    (Registers.reportAll l p faults).registry
  rwa [kept]

theorem expand?_eq (l : Loader) (pattern : String) : l.expand? pattern = some (l.expand pattern) := by
  rw [expand?, Pattern.Expander.expand?_eq]
  rfl

theorem addVariation?_eq (l : Loader) (p : Place) (g : VariationGroup) (key value : String) :
    l.addVariation? p g key value = some (l.addVariation p g key value) := by
  rw [addVariation?, Loader.addVariation]
  cases Variation.read value.toList with
  | error fault => rfl
  | ok v =>
    simp only [expand?_eq, Option.bind_eq_bind, Option.bind_some]
    rfl

theorem variations?_eq (source : Option String) (l : Loader) (g : VariationGroup)
    (ns : List Outline.Node) :
    variations? source l g ns = some (variations source l g ns) := by
  induction ns generalizing l g with
  | nil => rfl
  | cons n ns ih =>
    cases n with
    | entry key value line =>
      rw [variations?, addVariation?_eq]
      exact ih ..
    | heading key line children => exact ih ..

theorem isPlaced_of_mem_definitions {ss : List (List Char)} {v : Variation}
    (h : v ∈ (definitions ss).1) : v.IsPlaced := by
  induction ss with
  | nil => cases h
  | cons s ss ih =>
    rw [definitions] at h
    cases read : Variation.read s with
    | error fault =>
      simp only [read] at h
      exact ih h
    | ok v' =>
      simp only [read, List.mem_cons] at h
      rcases h with rfl | h
      · exact fun point => (Variation.hasOwnPoint_read read).hasHyphenAt
      · exact ih h

namespace Agrees

theorem refl (h : l.registry.Reachable) : Agrees (some l) l := ⟨rfl, h⟩

theorem foldlM {α : Type} {step? : Loader → α → Option Loader} {step : Loader → α → Loader}
    {xs : List α}
    (h : ∀ l : Loader, l.registry.Reachable → ∀ x ∈ xs, Agrees (step? l x) (step l x))
    (hl : l.registry.Reachable) : Agrees (xs.foldlM step? l) (xs.foldl step l) := by
  induction xs generalizing l with
  | nil => exact .refl hl
  | cons x xs ih =>
    obtain ⟨first, reached⟩ := h l hl x List.mem_cons_self
    rw [List.foldlM_cons, first]
    exact ih (fun l hl x hx => h l hl x (List.mem_cons_of_mem _ hx)) reached

theorem addItem (h : l.registry.Reachable) (p : Place) (name : AliasName) (v : Variation)
    {item : Variation} (placed : item.IsPlaced) :
    Agrees (addItem? p name v l item) (addItem p name v l item) := by
  rw [addItem?, placed.merge?_eq, Loader.addItem]
  simp only [Option.bind_eq_bind, Option.bind_some]
  cases (item.merge v).id with
  | none => exact .refl h
  | some id =>
    have reached := h.addAlias name (Text.lowercase id) (item.merge v).tags (item.merge v).states
    simp only [h.addAlias?_eq, Option.bind_some]
    cases added : l.registry.addAlias name (Text.lowercase id) (item.merge v).tags
        (item.merge v).states with
    | mk fault r =>
      rw [added] at reached
      cases fault with
      | none => exact .refl reached
      | some fault => exact .refl reached

theorem addExpanded (h : l.registry.Reachable) (p : Place) {items : List Variation}
    (placed : ∀ item ∈ items, item.IsPlaced) (named : List Char × Variation) :
    Agrees (addExpanded? p items l named) (addExpanded p items l named) := by
  rw [addExpanded?, Loader.addExpanded]
  cases aliasName named.1 with
  | mk name faults =>
    have reported := reachable_reportAll h p faults
    cases name with
    | none => exact .refl reported
    | some name =>
      simp only
      split
      · exact .refl reported
      · exact foldlM (fun l hl item hi => addItem hl p name named.2 (placed item hi)) reported

theorem addName (h : l.registry.Reachable) (p : Place) {items : List Variation}
    (placed : ∀ item ∈ items, item.IsPlaced) (name : List Char) :
    Agrees (addName? p items l name) (addName p items l name) := by
  rw [addName?, Expansion.countedName?_eq, Loader.addName]
  exact foldlM (fun l hl named _ => addExpanded hl p placed named) (reachable_reportAll h p _)

theorem addAlias (h : l.registry.Reachable) (p : Place) (pattern data : String) :
    Agrees (l.addAlias? p pattern data) (l.addAlias p pattern data) := by
  rw [addAlias?, Loader.addAlias]
  split
  · exact .refl h
  · have placed : ∀ item ∈ (definitions (Segment.nonEmpty ',' data.toList)).1, item.IsPlaced :=
      fun _ => isPlaced_of_mem_definitions
    generalize definitions (Segment.nonEmpty ',' data.toList) = read at placed ⊢
    have reported := reachable_reportAll h p read.2
    have expanded : ((l.reportAll p read.2).expand pattern).2.registry.Reachable := reported
    simp only [expand?_eq, Option.bind_eq_bind, Option.bind_some]
    exact foldlM (fun l hl name _ => addName hl p placed name) (reachable_reportAll expanded p _)

theorem nodes (source : Option String) (h : l.registry.Reachable) (ns : List Outline.Node) :
    Agrees (nodes? source l ns) (nodes source l ns) := by
  induction ns generalizing l with
  | nil => exact .refl h
  | cons n ns ih =>
    cases n with
    | heading key line children =>
      rw [nodes?, Loader.nodes]
      split
      · -- The entries of a group are read without a look at the registry.
        have kept : (variations source l .empty children).1.registry = l.registry :=
          (Serves.variations source l .empty children).1.registry
        rw [variations?_eq]
        refine ih (Registry.Reachable.apply (.group key _) ?_)
        rwa [kept]
      · exact ih h
    | entry key value line =>
      rw [nodes?, Loader.nodes]
      cases l.conditions.check key value with
      | none =>
        obtain ⟨first, reached⟩ := addAlias h ⟨source, line⟩ key value
        simp only [first]
        exact ih reached
      | some met =>
        cases met with
        | true => exact ih h
        | false => exact .refl h

theorem outline (source : Option String) (h : l.registry.Reachable) (ns : List Outline.Node) :
    Agrees (outline? source l ns) (outline source l ns) := by
  induction ns generalizing l with
  | nil => exact .refl h
  | cons n ns ih =>
    cases n with
    | heading key line children =>
      obtain ⟨first, reached⟩ := nodes source h children
      rw [outline?, first]
      exact ih reached
    | entry key value line => exact ih h

theorem text (h : l.registry.Reachable) (source : Option String) (text : String) :
    Agrees (l.text? source text) (l.text source text) := by
  rw [text?, Loader.text]
  cases Outline.read text with
  | mk ns faults =>
    have kept : (faults.foldl (fun l f => l.report ⟨source, f.1⟩ f.2) l).registry.Reachable := by
      induction faults generalizing l with
      | nil => exact h
      | cons f faults ih => exact ih h
    exact outline source kept ns

end Agrees

/-- No number that is used leads astray: handles are those of selectors, counters stand at entries
of their groups, ids are inserted at hyphens, and places in a pattern are those of its brackets. -/
theorem texts?_eq (h : l.registry.Reachable) (ts : List (Option String × String)) :
    l.texts? ts = some (l.texts ts) ∧ (l.texts ts).registry.HandlesHold ∧
      (l.texts ts).registry.Reachable := by
  have agrees : Agrees (l.texts? ts) (l.texts ts) :=
    .foldlM (fun l hl t _ => .text hl t.1 t.2) h
  exact ⟨agrees.eq, agrees.reachable.handlesHold, agrees.reachable⟩

theorem texts?_eq_of_boats :
    let p : Platform := ⟨⟨[1, 20, 4]⟩, false,
      [⟨"minecraft:oak_boat", false, 0⟩, ⟨"minecraft:birch_boat", false, 0⟩], []⟩
    let boat : Registration := ⟨⟨"boat", "boats", .a⟩, "oak_boat", [], []⟩
    let l := start ((Registry.empty p).layer.run [.register boat, .clear]) []
    let ts := [(none, "boats:\n  \x7bwood\x7d:\n    oak = oak\n    birch = birch\n  " ++
      "[toy ]\x7bwood\x7d boat = -_boat\n"), (some "ships", "ships:\n  ship = oak boat\n")]
    l.registry.Reachable ∧ l.texts? ts = some (l.texts ts) ∧
      (l.texts ts).registry.HandlesHold ∧ (l.texts ts).diagnostics = [] ∧
      (l.texts ts).registry.scope.names = [("birch boat", 3), ("oak boat", 2), ("ship", 4),
        ("toy birch boat", 1), ("toy oak boat", 0)] := by
  intro p boat l ts
  have reachable : l.registry.Reachable := (Registry.Reachable.empty p).layer.run _
  obtain ⟨same, hold, -⟩ := texts?_eq reachable ts
  exact ⟨reachable, same, hold, by decide +kernel, by decide +kernel⟩

/-- A registry that does not come about by registrations: the handle of its name is that of no
selector. -/
example :
    let p : Platform := ⟨⟨[1, 20, 4]⟩, false, [⟨"minecraft:oak_boat", false, 0⟩], []⟩
    let l := start ⟨p, { Scope.empty 0 with names := [("boat", 0)] }, []⟩ []
    l.texts? [(none, "ships:\n  ship = oak_boat\n")] = none := by
  decide +kernel

end Loader

end ItemLexicon
