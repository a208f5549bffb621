import ItemLexicon.Proofs.ReachableRegistry

namespace ItemLexicon

/-- The key, in lower case, is that of one of the forms. -/
def AliasName.HasKey (name : AliasName) (key : String) : Prop :=
  key = Text.lowercase name.singular ∨ key = Text.lowercase name.plural

instance (name : AliasName) (key : String) : Decidable (name.HasKey key) :=
  inferInstanceAs (Decidable (_ ∨ _))

namespace Scope

def handle? (s : Scope) (key : String) : Option Nat := Dictionary.get? key s.names

def listAt (s : Scope) (n : Nat) : List Entry := s.selectors[n]?.getD []

def target? (s : Scope) (name : AliasName) : Option Nat :=
  (s.handle? (Text.lowercase name.singular)).or (s.handle? (Text.lowercase name.plural))

/-- The selector that a registration of the name extends, which may be a new one. -/
def target (s : Scope) (name : AliasName) : Nat := (s.target? name).getD s.selectors.length

def BindsApart (s : Scope) (name : AliasName) : Prop :=
  s.handle? (Text.lowercase name.singular) ≠ none ∧
    s.handle? (Text.lowercase name.plural) ≠ none ∧
    s.handle? (Text.lowercase name.singular) ≠ s.handle? (Text.lowercase name.plural)

instance (s : Scope) (name : AliasName) : Decidable (s.BindsApart name) :=
  inferInstanceAs (Decidable (_ ∧ _ ∧ _))

def BindsTogether (s : Scope) (key key' : String) : Prop :=
  s.handle? key ≠ none ∧ s.handle? key = s.handle? key'

instance (s : Scope) (key key' : String) : Decidable (s.BindsTogether key key') :=
  inferInstanceAs (Decidable (_ ∧ _))

/-- Every name is bound to a selector that is there and lists something. -/
def Bound (s : Scope) : Prop :=
  ∀ key n, s.handle? key = some n → n < s.selectors.length ∧ s.listAt n ≠ []

/-- The two scopes differ in nothing that the names list. -/
structure SameNames (s t : Scope) : Prop where
  names : s.names = t.names
  selectors : s.selectors = t.selectors

section Bind

variable {s : Scope} {name : AliasName} {es : List Entry} {key : String} {n : Nat}

theorem entries?_eq : s.entries? key = (s.handle? key).map s.listAt := rfl

theorem mem_names_iff : key ∈ s.names.keys ↔ s.handle? key ≠ none := by
  rw [ne_eq, handle?, Dictionary.get?_eq_none_iff, not_not]

theorem selectorFor_forms (s : Scope) (name : AliasName) :
    s.selectorFor (Text.lowercase name.singular) (Text.lowercase name.plural) =
      (s.target name, { s with
        selectors := if s.target? name = none then s.selectors ++ [[]] else s.selectors }) := by
  rw [target]
  cases h : s.target? name with
  | some n =>
    rw [target?, handle?, handle?] at h
    rw [selectorFor, h]
    rfl
  | none =>
    rw [target?, handle?, handle?] at h
    rw [selectorFor, h]
    rfl

theorem bind_eq_of_forms (s : Scope) (name : AliasName) (es : List Entry) :
    s.bind name es = { s with
      names := Dictionary.insert (Text.lowercase name.plural) (s.target name)
        (Dictionary.insert (Text.lowercase name.singular) (s.target name) s.names)
      selectors := (if s.target? name = none then s.selectors ++ [[]] else s.selectors).modify
        (s.target name) (· ++ es) } := by
  rw [bind]
  simp only [selectorFor_forms]

theorem handle?_bind : (s.bind name es).handle? key =
    if name.HasKey key then some (s.target name) else s.handle? key := by
  rw [handle?, bind_eq_of_forms]
  by_cases plural : key = Text.lowercase name.plural
  · have hk : name.HasKey key := .inr plural
    rw [if_pos hk, plural, Dictionary.get?_insert_self]
  · rw [Dictionary.get?_insert_of_ne plural]
    by_cases singular : key = Text.lowercase name.singular
    · have hk : name.HasKey key := .inl singular
      rw [if_pos hk, singular, Dictionary.get?_insert_self]
    · have hk : ¬name.HasKey key := fun hk => hk.elim singular plural
      rw [if_neg hk, Dictionary.get?_insert_of_ne singular, handle?]

theorem lt_of_target? (h : s.Bound) (ht : s.target? name = some n) : n < s.selectors.length := by
  rw [target?, Option.or_eq_some_iff] at ht
  rcases ht with singular | ⟨-, plural⟩
  · exact (h _ n singular).1
  · exact (h _ n plural).1

theorem getD_append_nil {α : Type} (ls : List (List α)) (n : Nat) :
    (ls ++ [[]])[n]?.getD [] = ls[n]?.getD [] := by
  rcases Nat.lt_or_ge n ls.length with h | h
  · rw [List.getElem?_append_left h]
  · rw [List.getElem?_append_right h, List.getElem?_eq_none h]
    cases n - ls.length <;> simp

theorem getD_modify_append {α : Type} {ls : List (List α)} {m : Nat} (hm : m < ls.length)
    (es : List α) (n : Nat) : (ls.modify m (· ++ es))[n]?.getD [] =
      if n = m then ls[n]?.getD [] ++ es else ls[n]?.getD [] := by
  rw [List.getElem?_modify]
  by_cases h : n = m
  · simp [h, hm]
  · simp [h, Ne.symm h]

theorem target_lt (h : s.Bound) (name : AliasName) : s.target name <
    (if s.target? name = none then s.selectors ++ [[]] else s.selectors).length := by
  rw [target]
  cases ht : s.target? name with
  | some n => exact lt_of_target? h ht
  | none => simp

theorem listAt_bind (h : s.Bound) : (s.bind name es).listAt n =
    if n = s.target name then s.listAt n ++ es else s.listAt n := by
  have before : (if s.target? name = none then s.selectors ++ [[]] else s.selectors)[n]?.getD [] =
      s.listAt n := by
    split
    · exact getD_append_nil ..
    · rfl
  rw [listAt, bind_eq_of_forms, getD_modify_append (target_lt h name), before]

theorem Bound.bind (h : s.Bound) (name : AliasName) (hes : es ≠ []) : (s.bind name es).Bound := by
  intro key n hk
  rw [handle?_bind] at hk
  rw [listAt_bind h, bind_eq_of_forms, List.length_modify]
  have longer : s.selectors.length ≤
      (if s.target? name = none then s.selectors ++ [[]] else s.selectors).length := by
    split <;> simp
  split at hk
  · cases hk
    refine ⟨target_lt h name, ?_⟩
    rw [if_pos rfl]
    simp [hes]
  · obtain ⟨inside, some'⟩ := h key n hk
    refine ⟨inside.trans_le longer, ?_⟩
    split
    · simp [hes]
    · exact some'

theorem eq_target_of_hasKey (hk : name.HasKey key) (hn : s.handle? key = some n)
    (apart : ¬(s.BindsApart name ∧ key = Text.lowercase name.plural)) : n = s.target name := by
  rw [target, target?]
  rcases hk with rfl | rfl
  · rw [hn]
    rfl
  · cases hs : s.handle? (Text.lowercase name.singular) with
    | none =>
      rw [hn]
      rfl
    | some m =>
      by_contra ne
      refine apart ⟨?_, rfl⟩
      rw [BindsApart, hs, hn]
      exact ⟨nofun, nofun, fun same => ne (Option.some.inj same).symm⟩

end Bind

namespace SameNames

variable {s t : Scope}

theorem mark (s : Scope) (m : Nat) : (s.mark m).SameNames s where
  names := by rw [mark_eq]
  selectors := mark_selectors s m

theorem handle? (h : s.SameNames t) (key : String) : s.handle? key = t.handle? key := by
  rw [Scope.handle?, Scope.handle?, h.names]

theorem listAt (h : s.SameNames t) (n : Nat) : s.listAt n = t.listAt n := by
  rw [Scope.listAt, Scope.listAt, h.selectors]

theorem bind (h : s.SameNames t) (name : AliasName) (es : List Entry) :
    (s.bind name es).SameNames (t.bind name es) := by
  constructor <;>
    rw [bind_eq_of_forms, bind_eq_of_forms, target, target, target?, target?, h.handle?,
      h.handle?, h.names, h.selectors]

theorem bound (h : s.SameNames t) (ht : t.Bound) : s.Bound := by
  intro key n hn
  rw [h.selectors, h.listAt]
  exact ht key n (h.handle? key ▸ hn)

end SameNames

end Scope

theorem Selector.ofItems_inj {is js : List Item} : ofItems is = ofItems js ↔ is = js := by
  refine ⟨?_, congrArg ofItems⟩
  intro h
  exact congrArg (fun s => s.types) h

namespace Registry

def Bound (r : Registry) : Prop := ∀ s ∈ r.scopes, s.Bound

theorem entries?_eq (r : Registry) (name : String) : r.entries? name =
    (r.scope.entries? (Text.lowercase name)).or
      (r.parents.findSome? fun s => s.entries? (Text.lowercase name)) := by
  rw [entries?, scopes, List.findSome?_cons]
  cases r.scope.entries? (Text.lowercase name) <;> rfl

theorem Bound.ne_nil {r : Registry} (h : r.Bound) {name : String} {es : List Entry}
    (hes : r.entries? name = some es) : es ≠ [] := by
  obtain ⟨s, hs, found⟩ := List.exists_of_findSome?_eq_some hes
  obtain ⟨n, hn, rfl⟩ := Option.map_eq_some_iff.mp found
  exact (h s hs _ n hn).2

/-- The entries that a successful registration puts under its name: those of the alias that the id
is a name of, or else the one that holds the item of the definition from then on. -/
inductive Brings (r : Registry) (c : Registration) : List Entry → Prop
  | reference {es : List Entry} (known : r.entries? c.id = some es) : Brings r c es
  | item {m : Nat} {info : MaterialInfo} {e : Entry} (new : r.entries? c.id = none)
      (material : r.platform.material? c.id = some m) (row : r.platform.info? m = some info)
      (accepted : c.isRefused info = false)
      (found : (r.register c).equal? (c.item m info) = some e) : Brings r c [e]

theorem Brings.ne_nil {r : Registry} (h : r.Bound) {c : Registration} {es : List Entry}
    (hes : r.Brings c es) : es ≠ [] := by
  cases hes with
  | reference known => exact h.ne_nil known
  | item => exact List.cons_ne_nil _ _

theorem Sound.register_cases {r : Registry} (h : r.Sound) (c : Registration) :
    ((r.attempt c).1 ≠ none ∧ (r.register c).scope.SameNames r.scope) ∨
      ((r.attempt c).1 = none ∧
        ∃ es, r.Brings c es ∧ (r.register c).scope.SameNames (r.scope.bind c.name es)) := by
  obtain ⟨fault, s, hs, o⟩ := exists_outcome r c
  have after : r.register c = { r with scope := s } := by rw [Registry.register, hs]
  rw [hs, after]
  cases o with
  | reference known => exact .inr ⟨rfl, _, .reference known, rfl, rfl⟩
  | unknown => exact .inl ⟨Option.some_ne_none _, rfl, rfl⟩
  | refused => exact .inl ⟨Option.some_ne_none _, .mark ..⟩
  | @repeated m info e new material row accepted found =>
    refine .inr ⟨rfl, [e], .item new material row accepted ?_, (Scope.SameNames.mark ..).bind ..⟩
    rw [after, equal?, Scope.bind_index, Scope.mark_index]
    exact found
  | @fresh m info new material row accepted absent =>
    have marked := Scope.SameNames.mark r.scope m
    refine .inr ⟨rfl, [c.entry r.scope.nextSerial m info], .item new material row accepted ?_,
      Scope.SameNames.bind ?_ ..⟩
    · have defined : (c.entry r.scope.nextSerial m info).item.IsDefined m info := c.isDefined m info
      rw [after, equal?, Scope.bind_index]
      refine ((h.index.add row defined absent).equal?_eq_some_iff defined).mpr ⟨?_, .refl _⟩
      exact (h.index.entries_add row defined absent).mem_iff.mpr List.mem_cons_self
    · exact ⟨marked.names, marked.selectors⟩

theorem Bound.register {r : Registry} (h : r.Bound) (sound : r.Sound) (c : Registration) :
    (r.register c).Bound := by
  have own := h r.scope List.mem_cons_self
  intro s hs
  rw [scopes, register_parents] at hs
  rcases List.mem_cons.mp hs with rfl | hs
  · rcases sound.register_cases c with ⟨-, same⟩ | ⟨-, es, brings, same⟩
    · exact same.bound own
    · exact same.bound (own.bind c.name (brings.ne_nil h))
  · exact h s (List.mem_cons_of_mem _ hs)

theorem Reachable.bound {r : Registry} (h : Reachable r) : r.Bound := by
  induction h with
  | empty p =>
    intro s hs key n hn
    rw [List.mem_singleton.mp hs] at hn
    cases hn
  | layer _ ih =>
    intro s hs
    rcases List.mem_cons.mp hs with rfl | hs
    · intro key n hn
      cases hn
    · exact ih s hs
  | @apply r op h ih =>
    cases op with
    | register c => exact ih.register h.sound c
    | group name g =>
      intro s hs
      rcases List.mem_cons.mp hs with rfl | hs
      · exact ih r.scope List.mem_cons_self
      · exact ih s (List.mem_cons_of_mem _ hs)
    | clear =>
      intro s hs
      rcases List.mem_cons.mp hs with rfl | hs
      · intro key n hn
        cases hn
      · exact ih s (List.mem_cons_of_mem _ hs)

section Lookup

variable {r : Registry} {c : Registration} {n : String}

theorem Sound.handle?_register (h : r.Sound) {key : String} {k : Nat}
    (apart : ¬((r.attempt c).1 = none ∧ r.scope.BindsApart c.name ∧
      key = Text.lowercase c.name.plural))
    (hk : r.scope.handle? key = some k) : (r.register c).scope.handle? key = some k := by
  rcases h.register_cases c with ⟨-, same⟩ | ⟨ok, es, -, same⟩
  · rw [same.handle?, hk]
  · rw [same.handle?, Scope.handle?_bind]
    by_cases form : c.name.HasKey key
    · have extended := Scope.eq_target_of_hasKey form hk fun both => apart ⟨ok, both⟩
      rw [if_pos form, extended]
    · rw [if_neg form, hk]

theorem Bound.listAt_register (h : r.Bound) (sound : r.Sound) (c : Registration) (k : Nat) :
    r.scope.listAt k <+: (r.register c).scope.listAt k := by
  have own := h r.scope List.mem_cons_self
  rcases sound.register_cases c with ⟨-, same⟩ | ⟨-, es, -, same⟩
  · exact same.listAt k ▸ List.prefix_rfl
  · rw [same.listAt, Scope.listAt_bind own]
    split
    · exact List.prefix_append ..
    · exact List.prefix_rfl

theorem lookup_of_entries? {es : List Entry} (h : r.entries? n = some es) :
    r.lookup n = some (.ofItems (es.map Entry.item)) := by
  rw [lookup, h]
  rfl

theorem contains_of_lookup {s : Selector} (h : r.lookup n = some s) : r.contains n = true := by
  rw [lookup, Option.map_eq_some_iff] at h
  obtain ⟨es, known, -⟩ := h
  rw [contains, known]
  rfl

theorem entries?_register_of_handle?_eq_none (none' : r.scope.handle? (Text.lowercase n) = none)
    (still : (r.register c).scope.handle? (Text.lowercase n) = none) :
    (r.register c).entries? n = r.entries? n := by
  rw [entries?_eq, entries?_eq, register_parents, Scope.entries?_eq, Scope.entries?_eq, none',
    still]
  rfl

theorem entries?_of_handle? {k : Nat} (hk : r.scope.handle? (Text.lowercase n) = some k) :
    r.entries? n = some (r.scope.listAt k) := by
  rw [entries?_eq, Scope.entries?_eq, hk]
  rfl

/-- A successful registration loses nothing that a name lists.  A form of its name that only the
registries below knew becomes a name of the registry itself, and hides theirs. -/
theorem Reachable.lookup_register (h : Reachable r) (ok : (r.attempt c).1 = none)
    (apart : ¬(r.scope.BindsApart c.name ∧ Text.lowercase n = Text.lowercase c.name.plural)) :
    if c.name.HasKey (Text.lowercase n) ∧ r.scope.handle? (Text.lowercase n) = none then
      ∃ es, r.Brings c es ∧
        (r.register c).entries? n = some (r.scope.listAt (r.scope.target c.name) ++ es)
    else ∀ before, r.lookup n = some before →
      ∃ after, (r.register c).lookup n = some after ∧ before.types <+: after.types := by
  have own := h.bound r.scope List.mem_cons_self
  rcases h.sound.register_cases c with ⟨fault, -⟩ | ⟨-, es, brings, same⟩
  · exact absurd ok fault
  split
  · rename_i hidden
    refine ⟨es, brings, ?_⟩
    have bound : (r.register c).scope.handle? (Text.lowercase n) =
        some (r.scope.target c.name) := by
      rw [same.handle?, Scope.handle?_bind, if_pos hidden.1]
    rw [entries?_of_handle? bound, same.listAt, Scope.listAt_bind own, if_pos rfl]
  · rename_i kept
    intro before hb
    cases hn : r.scope.handle? (Text.lowercase n) with
    | none =>
      have other : ¬c.name.HasKey (Text.lowercase n) := fun hk => kept ⟨hk, hn⟩
      have still : (r.register c).scope.handle? (Text.lowercase n) = none := by
        rw [same.handle?, Scope.handle?_bind, if_neg other, hn]
      refine ⟨before, ?_, List.prefix_rfl⟩
      rw [lookup, entries?_register_of_handle?_eq_none hn still, ← lookup, hb]
    | some k =>
      have still := h.sound.handle?_register (fun lost => apart lost.2) hn
      rw [lookup_of_entries? (entries?_of_handle? hn)] at hb
      cases hb
      refine ⟨_, lookup_of_entries? (entries?_of_handle? still), ?_⟩
      exact (h.bound.listAt_register h.sound c k).map Entry.item

theorem lookup_register_of_overlap :
    let p : Platform :=
      ⟨⟨[1, 20, 4]⟩, false, [⟨"minecraft:stone", true, 0⟩, ⟨"minecraft:dirt", true, 0⟩], []⟩
    let r := ((empty p).register ⟨⟨"rock", "rocks", .a⟩, "stone", [], []⟩).register
      ⟨⟨"pebble", "gravel", .a⟩, "stone", [], []⟩
    let c : Registration := ⟨⟨"boulder", "Rocks", .a⟩, "dirt", [], []⟩
    (r.attempt c).1 = none ∧
      ¬(r.scope.BindsApart c.name ∧ Text.lowercase "Rock" = Text.lowercase c.name.plural) ∧
      (r.lookup "Rock").isSome ∧ ∀ before, r.lookup "Rock" = some before →
        ∃ after, (r.register c).lookup "Rock" = some after ∧ before.types <+: after.types := by
  intro p r c
  have reachable : Reachable r := (Reachable.empty p).run [.register _, .register _]
  have ok : (r.attempt c).1 = none := by decide
  have apart : ¬(r.scope.BindsApart c.name ∧
      Text.lowercase "Rock" = Text.lowercase c.name.plural) := by decide
  have lost := reachable.lookup_register ok apart
  rw [if_neg (by decide)] at lost
  exact ⟨ok, apart, by decide, lost⟩

theorem registration_hides_and_rebinds :
    let p : Platform :=
      ⟨⟨[1, 20, 4]⟩, false, [⟨"minecraft:stone", true, 0⟩, ⟨"minecraft:dirt", true, 0⟩], []⟩
    let rock : Registration := ⟨⟨"rock", "rocks", .a⟩, "stone", [], []⟩
    let soil : Registration := ⟨⟨"soil", "soils", .a⟩, "dirt", [], []⟩
    let materials (s : Option Selector) : Option (List (Option Nat)) :=
      s.map fun s => s.types.map Item.material
    let above := ((empty p).register rock).layer
    let hides : Registration := { soil with name := rock.name }
    let both := ((empty p).register rock).register soil
    let rebinds : Registration := { soil with name := ⟨"soil", "rocks", .a⟩ }
    (Reachable above ∧ (above.attempt hides).1 = none ∧
      materials (above.lookup "rock") = some [some 0] ∧
      materials ((above.register hides).lookup "rock") = some [some 1]) ∧
    Reachable both ∧ (both.attempt rebinds).1 = none ∧
      materials (both.lookup "rocks") = some [some 0] ∧
      materials ((both.register rebinds).lookup "rocks") = some [some 1, some 1] := by
  intro p rock soil materials above hides both rebinds
  have below : Reachable ((empty p).register rock) := (Reachable.empty p).apply (.register rock)
  exact ⟨⟨below.layer, by decide⟩, below.apply (.register soil), by decide⟩

/-- A registration under a new singular changes, besides its own two names, just those that share
the selector of its plural: they list its entries too. -/
theorem Reachable.lookup_register_eq_iff (h : Reachable r) (ok : (r.attempt c).1 = none)
    (new : r.scope.handle? (Text.lowercase c.name.singular) = none)
    (other : ¬c.name.HasKey (Text.lowercase n)) :
    (r.register c).lookup n = r.lookup n ↔
      ¬r.scope.BindsTogether (Text.lowercase n) (Text.lowercase c.name.plural) := by
  have own := h.bound r.scope List.mem_cons_self
  rcases h.sound.register_cases c with ⟨fault, -⟩ | ⟨-, es, brings, same⟩
  · exact absurd ok fault
  have plural : r.scope.target? c.name = r.scope.handle? (Text.lowercase c.name.plural) := by
    rw [Scope.target?, new, Option.none_or]
  have still : (r.register c).scope.handle? (Text.lowercase n) =
      r.scope.handle? (Text.lowercase n) := by
    rw [same.handle?, Scope.handle?_bind, if_neg other]
  cases hn : r.scope.handle? (Text.lowercase n) with
  | none =>
    rw [hn] at still
    refine iff_of_true ?_ fun shared => shared.1 hn
    rw [lookup, entries?_register_of_handle?_eq_none hn still, ← lookup]
  | some k =>
    rw [hn] at still
    rw [lookup_of_entries? (entries?_of_handle? hn), lookup_of_entries? (entries?_of_handle? still),
      same.listAt, Scope.listAt_bind own]
    have shared : r.scope.BindsTogether (Text.lowercase n) (Text.lowercase c.name.plural) ↔
        k = r.scope.target c.name := by
      rw [Scope.BindsTogether, Scope.target, plural, hn]
      cases hm : r.scope.handle? (Text.lowercase c.name.plural) with
      | none =>
        refine iff_of_false ?_ (own _ k hn).1.ne
        rintro ⟨-, same⟩
        cases same
      | some m => simp
    rw [shared]
    by_cases hk : k = r.scope.target c.name
    · rw [if_pos hk]
      refine iff_of_false ?_ (not_not_intro hk)
      intro unchanged
      rw [Option.some_inj, Selector.ofItems_inj, List.map_append, List.append_right_eq_self,
        List.map_eq_nil_iff] at unchanged
      exact brings.ne_nil h.bound unchanged
    · rw [if_neg hk]
      exact iff_of_true rfl hk

theorem lookup_register_eq_of_selectors :
    let p : Platform :=
      ⟨⟨[1, 20, 4]⟩, false, [⟨"minecraft:stone", true, 0⟩, ⟨"minecraft:dirt", true, 0⟩], []⟩
    let r := ((empty p).register ⟨⟨"rock", "rocks", .a⟩, "stone", [], []⟩).register
      ⟨⟨"soil", "soils", .a⟩, "dirt", [], []⟩
    let c : Registration := ⟨⟨"boulder", "Rocks", .a⟩, "dirt", [], []⟩
    (r.attempt c).1 = none ∧ r.scope.handle? (Text.lowercase c.name.singular) = none ∧
      (r.register c).lookup "Soils" = r.lookup "Soils" ∧
      (r.register c).lookup "rock" ≠ r.lookup "rock" := by
  intro p r c
  have reachable : Reachable r := (Reachable.empty p).run [.register _, .register _]
  have ok : (r.attempt c).1 = none := by decide
  have new : r.scope.handle? (Text.lowercase c.name.singular) = none := by decide
  refine ⟨ok, new, ?_, ?_⟩
  · exact (reachable.lookup_register_eq_iff ok new (by decide)).mpr (by decide)
  · exact fun same => (reachable.lookup_register_eq_iff ok new (by decide)).mp same (by decide)

theorem new_singular_changes_another :
    let p : Platform :=
      ⟨⟨[1, 20, 4]⟩, false, [⟨"minecraft:stone", true, 0⟩, ⟨"minecraft:dirt", true, 0⟩], []⟩
    let r := (empty p).register ⟨⟨"rock", "rocks", .a⟩, "stone", [], []⟩
    let c : Registration := ⟨⟨"boulder", "rocks", .a⟩, "dirt", [], []⟩
    let materials (s : Option Selector) : Option (List (Option Nat)) :=
      s.map fun s => s.types.map Item.material
    Reachable r ∧ (r.attempt c).1 = none ∧ r.contains c.name.singular = false ∧
      ¬c.name.HasKey (Text.lowercase "rock") ∧ materials (r.lookup "rock") = some [some 0] ∧
      materials ((r.register c).lookup "rock") = some [some 0, some 1] := by
  intro p r c materials
  exact ⟨(Reachable.empty p).apply (.register _), by decide⟩

end Lookup

end Registry

end ItemLexicon
