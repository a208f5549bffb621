import ItemLexicon.Registry.Basic

namespace ItemLexicon

namespace Scope

section Frame

variable (s : Scope) (m : Nat) (name : AliasName) (es : List Entry)

theorem mark_eq : s.mark m = { s with materials := (s.mark m).materials } := by
  rw [mark]
  split <;> rfl

theorem selectorFor_eq (singular plural : String) : (s.selectorFor singular plural).2 =
    { s with selectors := (s.selectorFor singular plural).2.selectors } := by
  rw [selectorFor]
  split <;> rfl

theorem bind_eq : s.bind name es =
    { s with names := (s.bind name es).names, selectors := (s.bind name es).selectors } := by
  rw [bind]
  simp only
  rw [selectorFor_eq]

@[simp] theorem mark_selectors : (s.mark m).selectors = s.selectors := by rw [mark_eq]

@[simp] theorem mark_index : (s.mark m).index = s.index := by rw [mark_eq]

@[simp] theorem mark_nextSerial : (s.mark m).nextSerial = s.nextSerial := by rw [mark_eq]

@[simp] theorem bind_index : (s.bind name es).index = s.index := by rw [bind_eq]

end Frame

theorem contains_mark (s : Scope) (m k : Nat) :
    (s.mark m).materials.contains k = true ↔ s.materials.contains k = true ∨ k = m := by
  rw [mark]
  split
  · rename_i h
    constructor
    · exact .inl
    · rintro (hk | rfl)
      · exact hk
      · exact h
  · simp

def Lists (s : Scope) (e : Entry) : Prop := ∃ es ∈ s.selectors, e ∈ es

theorem lists_of_entries? {s : Scope} {key : String} {es : List Entry} {e : Entry}
    (h : s.entries? key = some es) (he : e ∈ es) : s.Lists e := by
  rw [entries?, Option.map_eq_some_iff] at h
  obtain ⟨n, -, rfl⟩ := h
  cases hn : s.selectors[n]? with
  | none =>
    rw [hn] at he
    cases he
  | some es =>
    rw [hn] at he
    exact ⟨es, List.mem_of_getElem? hn, he⟩

theorem lists_selectorFor {s : Scope} {singular plural : String} {e : Entry}
    (h : (s.selectorFor singular plural).2.Lists e) : s.Lists e := by
  rw [selectorFor] at h
  split at h
  · exact h
  · obtain ⟨es, hes, he⟩ := h
    rcases List.mem_append.mp hes with hes | hes
    · exact ⟨es, hes, he⟩
    · rw [List.mem_singleton.mp hes] at he
      cases he

theorem lists_modify {s : Scope} {names : Dictionary Nat} {n : Nat} {es : List Entry} {e : Entry}
    (h : Lists { s with names := names, selectors := s.selectors.modify n (· ++ es) } e) :
    s.Lists e ∨ e ∈ es := by
  obtain ⟨found, mem, he⟩ := h
  obtain ⟨k, hk⟩ := List.mem_iff_getElem?.mp mem
  rw [List.getElem?_modify] at hk
  obtain ⟨old, hold, rfl⟩ := Option.map_eq_some_iff.mp hk
  have listed : old ∈ s.selectors := List.mem_of_getElem? hold
  split at he
  · rcases List.mem_append.mp he with he | he
    · exact .inl ⟨old, listed, he⟩
    · exact .inr he
  · exact .inl ⟨old, listed, he⟩

theorem lists_bind {s : Scope} {name : AliasName} {es : List Entry} {e : Entry}
    (h : (s.bind name es).Lists e) : s.Lists e ∨ e ∈ es := by
  rw [bind] at h
  rcases lists_modify h with h | h
  · exact .inl (lists_selectorFor h)
  · exact .inr h

end Scope

theorem Platform.exists_info? {p : Platform} {id : String} {m : Nat} (h : p.material? id = some m) :
    ∃ info, p.info? m = some info := by
  rw [material?, List.findIdx?_eq_some_iff_getElem] at h
  obtain ⟨hm, -⟩ := h
  exact ⟨p.materials[m], List.getElem?_eq_getElem hm⟩

structure Registration where
  name : AliasName
  id : String
  tags : Tags
  states : States

namespace Registration

def blockStates (c : Registration) : States :=
  Dictionary.erase Registry.relatedEntityState c.states

def item (c : Registration) (m : Nat) (info : MaterialInfo) : Item :=
  .ofDefinition m info c.tags c.blockStates

def entry (c : Registration) (serial m : Nat) (info : MaterialInfo) : Entry :=
  ⟨serial, c.item m info, c.name, c.id, Dictionary.get? Registry.relatedEntityState c.states⟩

def isRefused (c : Registration) (info : MaterialInfo) : Bool :=
  !info.isBlock && !c.blockStates.isEmpty

end Registration

namespace Registry

def attempt (r : Registry) (c : Registration) : Option Fault × Registry :=
  r.addAlias c.name c.id c.tags c.states

def register (r : Registry) (c : Registration) : Registry := (r.attempt c).2

def registerAll (r : Registry) (cs : List Registration) : Registry := cs.foldl register r

theorem registerAll_append (r : Registry) (cs ds : List Registration) :
    r.registerAll (cs ++ ds) = (r.registerAll cs).registerAll ds := List.foldl_append ..

/-- How a registration can end, with the fault and the scope it leaves. -/
inductive Outcome (r : Registry) (c : Registration) : Option Fault → Scope → Prop
  | reference {es : List Entry} (known : r.entries? c.id = some es) :
      Outcome r c none (r.scope.bind c.name es)
  | unknown (new : r.entries? c.id = none) (missing : r.platform.material? c.id = none) :
      Outcome r c (some (.invalidMinecraftId c.id)) r.scope
  | refused {m : Nat} {info : MaterialInfo} (new : r.entries? c.id = none)
      (material : r.platform.material? c.id = some m) (row : r.platform.info? m = some info)
      (refused : c.isRefused info = true) :
      Outcome r c (some (.statesOnItem c.id)) (r.scope.mark m)
  | repeated {m : Nat} {info : MaterialInfo} {e : Entry} (new : r.entries? c.id = none)
      (material : r.platform.material? c.id = some m) (row : r.platform.info? m = some info)
      (accepted : c.isRefused info = false) (found : r.equal? (c.item m info) = some e) :
      Outcome r c none ((r.scope.mark m).bind c.name [e])
  | fresh {m : Nat} {info : MaterialInfo} (new : r.entries? c.id = none)
      (material : r.platform.material? c.id = some m) (row : r.platform.info? m = some info)
      (accepted : c.isRefused info = false) (absent : r.equal? (c.item m info) = none) :
      Outcome r c none (Scope.bind
        { r.scope.mark m with
          index := r.scope.index.add (c.entry r.scope.nextSerial m info)
          nextSerial := r.scope.nextSerial + 1 }
        c.name [c.entry r.scope.nextSerial m info])

theorem exists_outcome (r : Registry) (c : Registration) :
    ∃ fault s, r.attempt c = (fault, { r with scope := s }) ∧ Outcome r c fault s := by
  rw [attempt, addAlias, entriesFor]
  cases known : r.entries? c.id with
  | some es => exact ⟨_, _, rfl, .reference known⟩
  | none =>
    cases material : r.platform.material? c.id with
    | none => exact ⟨_, _, rfl, .unknown known material⟩
    | some m =>
      obtain ⟨info, row⟩ := Platform.exists_info? material
      simp only [row]
      cases refused : c.isRefused info with
      | true =>
        refine ⟨_, _, ?_, .refused known material row refused⟩
        rw [Registration.isRefused, Registration.blockStates] at refused
        rw [if_pos refused]
      | false =>
        -- the mark set before the search leaves the index alone
        have kept : Registry.equal? { r with scope := r.scope.mark m } (c.item m info) =
            r.equal? (c.item m info) := by
          rw [equal?, equal?, Scope.mark_index]
        have accepted := refused
        rw [Registration.isRefused, Registration.blockStates] at accepted
        simp only [accepted, entryFor]
        rw [Registration.item, Registration.blockStates] at kept
        cases found : r.equal? (c.item m info) with
        | some e =>
          refine ⟨_, _, ?_, .repeated known material row refused found⟩
          rw [Registration.item, Registration.blockStates] at found
          simp only [kept, found]
          rfl
        | none =>
          refine ⟨_, _, ?_, .fresh known material row refused found⟩
          rw [Registration.item, Registration.blockStates] at found
          simp only [kept, found, Scope.enter, Scope.mark_index, Scope.mark_nextSerial]
          rfl

@[simp] theorem register_platform (r : Registry) (c : Registration) :
    (r.register c).platform = r.platform := by
  obtain ⟨fault, s, h, -⟩ := exists_outcome r c
  rw [register, h]

@[simp] theorem register_parents (r : Registry) (c : Registration) :
    (r.register c).parents = r.parents := by
  obtain ⟨fault, s, h, -⟩ := exists_outcome r c
  rw [register, h]

theorem exists_outcome_register (r : Registry) (c : Registration) :
    ∃ fault, Outcome r c fault (r.register c).scope := by
  obtain ⟨fault, s, h, o⟩ := exists_outcome r c
  rw [register, h]
  exact ⟨fault, o⟩

section Failure

variable {r r' : Registry} {name : AliasName} {id : String} {tags : Tags} {states : States}
  {fault : Fault}

theorem eq_or_eq_mark_of_fault (h : r.addAlias name id tags states = (some fault, r')) :
    (r.platform.material? id = none ∧ r' = r) ∨
      ∃ m, r.platform.material? id = some m ∧ r' = { r with scope := r.scope.mark m } := by
  obtain ⟨f, s, hs, o⟩ := exists_outcome r ⟨name, id, tags, states⟩
  rw [attempt, h] at hs
  cases hs
  cases o with
  | unknown new missing => exact .inl ⟨missing, rfl⟩
  | refused new material row refused => exact .inr ⟨_, material, rfl⟩

/-- A failed registration changes nothing but the materials, to which it adds that of the id. -/
theorem addAlias_of_fault (h : r.addAlias name id tags states = (some fault, r')) :
    r' = { r with scope := { r.scope with materials := r'.scope.materials } } ∧
    (∀ m, r'.hasMaterial m = true ↔
      r.hasMaterial m = true ∨ r.platform.material? id = some m) ∧
    ((∀ m, r'.hasMaterial m = r.hasMaterial m) ↔
      ∀ m, r.platform.material? id = some m → r.hasMaterial m = true) := by
  have frame : r' = { r with scope := { r.scope with materials := r'.scope.materials } } := by
    rcases eq_or_eq_mark_of_fault h with ⟨-, rfl⟩ | ⟨m, -, rfl⟩
    · rfl
    · rw [← Scope.mark_eq]
  have known : ∀ m, r'.hasMaterial m = true ↔
      r.hasMaterial m = true ∨ r.platform.material? id = some m := by
    intro m
    rcases eq_or_eq_mark_of_fault h with ⟨missing, rfl⟩ | ⟨k, material, rfl⟩
    · simp [missing]
    · rw [material, hasMaterial, hasMaterial, scopes, scopes, List.any_cons, List.any_cons,
        Bool.or_eq_true, Bool.or_eq_true, Scope.contains_mark, Option.some_inj, eq_comm (a := m)]
      exact or_right_comm
  refine ⟨frame, known, ?_, ?_⟩
  · intro same m material
    rw [← same m]
    exact (known m).mpr (.inr material)
  · intro all m
    rw [Bool.eq_iff_iff, known m]
    exact or_iff_left_of_imp (all m)

theorem addAlias_of_fault_of_states :
    let p : Platform := ⟨⟨[1, 20, 4]⟩, false, [⟨"minecraft:stick", false, 0⟩], []⟩
    let wand : AliasName := ⟨"wand", "wands", .a⟩
    let r := ((empty p).addAlias wand "stick" [] [("facing", "north")]).2
    (empty p).addAlias wand "stick" [] [("facing", "north")] =
        (some (.statesOnItem "stick"), r) ∧
      r = { empty p with scope := { (empty p).scope with materials := r.scope.materials } } ∧
      (∀ m, r.hasMaterial m = true ↔
        (empty p).hasMaterial m = true ∨ p.material? "stick" = some m) ∧
      ((∀ m, r.hasMaterial m = (empty p).hasMaterial m) ↔
        ∀ m, p.material? "stick" = some m → (empty p).hasMaterial m = true) := by
  intro p wand r
  have h : (empty p).addAlias wand "stick" [] [("facing", "north")] =
      (some (.statesOnItem "stick"), r) := Prod.ext (by decide) rfl
  exact ⟨h, addAlias_of_fault h⟩

theorem failed_registration_marks_material :
    let p : Platform := ⟨⟨[1, 20, 4]⟩, false, [⟨"minecraft:stick", false, 0⟩], []⟩
    let failed := (empty p).addAlias ⟨"wand", "wands", .a⟩ "stick" [] [("facing", "north")]
    failed.1 = some (.statesOnItem "stick") ∧
      (empty p).hasMaterial 0 = false ∧ failed.2.hasMaterial 0 = true := by
  decide

end Failure

end Registry

end ItemLexicon
