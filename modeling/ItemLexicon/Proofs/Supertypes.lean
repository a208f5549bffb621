import ItemLexicon.Proofs.ItemCover
import ItemLexicon.Proofs.Membership

namespace ItemLexicon

namespace Item

theorem fits_of_isAnything {legacy : Bool} {s t : Item}
    (h : s.isAnything = true ∨ t.isAnything = true) : s.Fits legacy t := by
  rw [Fits, compare_of_isAnything h]
  rfl

namespace IsMarked

variable {i : Item}

theorem anything : anything.IsMarked := ⟨fun _ => rfl, fun _ => rfl⟩

theorem bare (m : Nat) (info : MaterialInfo) : (bare m info).IsMarked :=
  ⟨fun _ => rfl, fun _ => rfl⟩

theorem setItemForm (h : i.IsMarked) (held : Bool) : (i.setItemForm held).IsMarked :=
  ⟨h.durability, h.metadata⟩

theorem setMetadata (h : i.IsMarked) (m : Metadata) : (i.setMetadata m).IsMarked :=
  ⟨h.durability, nofun⟩

theorem setDurability (h : i.IsMarked) (n : Nat) : (i.setDurability n).IsMarked :=
  ⟨nofun, h.metadata⟩

theorem baseCopy (i : Item) : i.baseCopy.IsMarked := by
  rw [Item.baseCopy]
  split
  · exact ⟨fun _ => rfl, fun _ => rfl⟩
  · exact setMetadata ⟨fun _ => rfl, fun _ => rfl⟩ _

end IsMarked

end Item

namespace Selector

variable {legacy : Bool} {s o a b c : Selector}

theorem isSupertypeOf_iff : s.isSupertypeOf legacy o = true ↔
    (∃ t ∈ s.types, t.isAnything = true) ∨ ∀ x ∈ o.types, ∃ t ∈ s.types, x.Fits legacy t := by
  simp only [isSupertypeOf, Bool.or_eq_true, List.any_eq_true, List.all_eq_true, Item.Fits]

theorem isSupertypeOf_self_iff (legacy : Bool) (s : Selector) : s.isSupertypeOf legacy s = true ↔
    (∃ t ∈ s.types, t.isAnything = true) ∨
      ∀ t ∈ s.types, legacy = false → t.itemForm = true → t.wantsStates = true →
        ∃ u ∈ s.types, t.Fits legacy u := by
  rw [isSupertypeOf_iff]
  constructor
  · rintro (any | covered)
    · exact .inl any
    · exact .inr fun t ht _ _ _ => covered t ht
  · rintro (any | held)
    · exact .inl any
    · by_cases any : ∃ t ∈ s.types, t.isAnything = true
      · exact .inl any
      · refine .inr fun t ht => ?_
        by_cases wants : legacy = false ∧ t.itemForm = true ∧ t.wantsStates = true
        · exact held t ht wants.1 wants.2.1 wants.2.2
        · have bound : t.isAnything = false := Bool.eq_false_iff.mpr fun h => any ⟨t, ht, h⟩
          exact ⟨t, ht, (Item.fits_self_iff bound).mpr wants⟩

theorem isSupertypeOf_trans (ab : a.isSupertypeOf legacy b = true)
    (bc : b.isSupertypeOf legacy c = true) :
    a.isSupertypeOf legacy c = true ∨
    ((∃ y ∈ b.types, y.isAnything = true) ∧ ∀ z ∈ a.types, z.isAnything = false) ∨
    ∃ x ∈ c.types, (∃ y ∈ b.types, ∃ z ∈ a.types, x.Fits legacy y ∧ y.Fits legacy z) ∧
      ∀ y ∈ b.types, ∀ z ∈ a.types, x.Fits legacy y → y.Fits legacy z →
        Item.Gap legacy x y z := by
  rw [isSupertypeOf_iff] at ab bc ⊢
  by_cases anyA : ∃ z ∈ a.types, z.isAnything = true
  · exact .inl (.inl anyA)
  have boundA : ∀ z ∈ a.types, z.isAnything = false :=
    fun z hz => Bool.eq_false_iff.mpr fun h => anyA ⟨z, hz, h⟩
  by_cases anyB : ∃ y ∈ b.types, y.isAnything = true
  · exact .inr (.inl ⟨anyB, boundA⟩)
  have boundB : ∀ y ∈ b.types, y.isAnything = false :=
    fun y hy => Bool.eq_false_iff.mpr fun h => anyB ⟨y, hy, h⟩
  by_cases whole : ∀ x ∈ c.types, ∃ z ∈ a.types, x.Fits legacy z
  · exact .inl (.inr whole)
  obtain ⟨x, hx, apart⟩ : ∃ x ∈ c.types, ∀ z ∈ a.types, ¬ x.Fits legacy z := by
    simpa using whole
  obtain ⟨y, hy, xy⟩ := bc.resolve_left anyB x hx
  obtain ⟨z, hz, yz⟩ := ab.resolve_left anyA y hy
  have boundX : x.isAnything = false :=
    Bool.eq_false_iff.mpr fun h => apart z hz (Item.fits_of_isAnything (.inl h))
  refine .inr (.inr ⟨x, hx, ⟨y, hy, z, hz, xy, yz⟩, fun y hy z hz xy yz => ?_⟩)
  by_contra closed
  exact apart z hz ((Item.fits_trans_iff boundX (boundB y hy) (boundA z hz) xy yz).mpr closed)

/-- The selectors of names, and what operations on selectors make of them.  What an added item has it
has marked as given, as the items of definitions do; a stack with a data value does not. -/
inductive Derived : Selector → Prop
  | resolved {x : Context} {text : String} {s : Selector} (known : x.registry.Reachable)
    (named : x.resolve? text = some s) : Derived s
  | listed {x : Context} {text : String} {s : Selector} (known : x.registry.Reachable)
    (named : x.list? text = some s) : Derived s
  | setAmount {s : Selector} (h : Derived s) (amount : Int) : Derived (s.setAmount amount)
  | setAll {s : Selector} (h : Derived s) (all : Bool) : Derived (s.setAll all)
  | add {s : Selector} (h : Derived s) {i : Item} (marked : i.IsMarked) : Derived (s.add i)
  | addAll {s : Selector} (h : Derived s) {is : List Item} (marked : ∀ i ∈ is, i.IsMarked) :
    Derived (s.addAll is)
  | remove {s : Selector} (h : Derived s) (index : Nat) : Derived (s.remove index)
  | retain {s : Selector} (h : Derived s) (keep : Item → Bool) : Derived (s.retain keep)
  | change {s : Selector} (h : Derived s) (change : Change) : Derived (s.change change)
  | items {s : Selector} (h : Derived s) : Derived (.ofSelection s.itemForm.1)
  | keepItems {s : Selector} (h : Derived s) : Derived s.itemForm.2
  | blocks {s : Selector} (h : Derived s) : Derived (.ofSelection s.blockForm.1)
  | keepBlocks {s : Selector} (h : Derived s) : Derived s.blockForm.2
  | baseType {s : Selector} (h : Derived s) : Derived s.baseType
  | intersection {s o : Selector} (h : Derived s) (h' : Derived o) (legacy : Bool) :
    Derived (s.intersection legacy o)

structure IsMarked (s : Selector) : Prop where
  types : ∀ t ∈ s.types, t.IsMarked
  items : ∀ sub ∈ s.items, ∀ t ∈ sub.types, t.IsMarked
  blocks : ∀ sub ∈ s.blocks, ∀ t ∈ sub.types, t.IsMarked

namespace IsMarked

theorem of_types (h : ∀ t ∈ s.types, t.IsMarked) (noItems : s.items = none)
    (noBlocks : s.blocks = none) : s.IsMarked where
  types := h
  items := by
    rw [noItems]
    exact fun sub hs => absurd hs (Option.not_mem_none sub)
  blocks := by
    rw [noBlocks]
    exact fun sub hs => absurd hs (Option.not_mem_none sub)

theorem setTypes {types : List Item} (h : ∀ t ∈ types, t.IsMarked) (s : Selector) :
    (s.setTypes types).IsMarked := .of_types h rfl rfl

theorem ofSelection {s : Selection} (h : ∀ t ∈ s.types, t.IsMarked) :
    (ofSelection s).IsMarked := .of_types h rfl rfl

theorem setAmount (h : s.IsMarked) (amount : Int) : (s.setAmount amount).IsMarked := by
  refine ⟨h.types, ?_, ?_⟩
  · intro sub hs
    obtain ⟨old, ho, rfl⟩ := Option.map_eq_some_iff.mp hs
    exact h.items old ho
  · intro sub hs
    obtain ⟨old, ho, rfl⟩ := Option.map_eq_some_iff.mp hs
    exact h.blocks old ho

theorem change (h : s.IsMarked) (c : Change) : (s.change c).IsMarked := by
  have types : ∀ t ∈ (s.change c).types, t.IsMarked := by
    cases c with
    | setDurability n =>
      exact List.forall_mem_map.mpr fun t ht => (h.types t ht).setDurability n
    | _ => exact List.forall_mem_map.mpr fun t ht => (h.types t ht).setMetadata _
  cases c <;> exact .of_types types rfl rfl

theorem itemForm (h : s.IsMarked) : ∀ t ∈ s.itemForm.1.types, t.IsMarked := by
  rw [Selector.itemForm]
  cases kept : s.items with
  | none => exact List.forall_mem_map.mpr fun t ht => (h.types t ht).setItemForm true
  | some sub => exact h.items sub kept

theorem blockForm (h : s.IsMarked) : ∀ t ∈ s.blockForm.1.types, t.IsMarked := by
  rw [Selector.blockForm]
  cases kept : s.blocks with
  | none => exact fun t ht => h.types t (List.mem_of_mem_filter ht)
  | some sub => exact h.blocks sub kept

theorem intersection (h : s.IsMarked) (h' : o.IsMarked) (legacy : Bool) :
    (s.intersection legacy o).IsMarked := by
  apply ofSelection
  intro t ht
  obtain ⟨x, hx, ht⟩ := List.mem_flatMap.mp ht
  obtain ⟨y, hy, narrower⟩ := List.mem_filterMap.mp ht
  rw [narrower?] at narrower
  split at narrower
  · cases narrower
    exact h.types t hx
  · split at narrower
    · cases narrower
      exact h'.types t hy
    · cases narrower

end IsMarked

end Selector

namespace Context

variable {x : Context}

theorem isMarked_of_type? (known : x.registry.Reachable) {name : List Char} {items : List Item}
    (named : x.type? name = some items) : ∀ t ∈ items, t.IsMarked := by
  rcases type?_cases known named with defined | ⟨-, m, info, rfl⟩
  · intro t ht
    obtain ⟨_, _, defined⟩ := defined t ht
    exact defined.isMarked
  · exact List.forall_mem_singleton.mpr (.bare m info)

theorem isMarked_of_quantified? (known : x.registry.Reachable) {q : Quantifier}
    {name : List Char} {s : Selector} (named : x.quantified? q name = some s) : s.IsMarked := by
  have types := isMarked_of_type? known (types_of_quantified? named).1
  rw [quantified?] at named
  split at named
  · cases named
    exact .of_types types rfl rfl
  · cases named

theorem isMarked_of_resolve? (known : x.registry.Reachable) {text : String} {s : Selector}
    (named : x.resolve? text = some s) : s.IsMarked := by
  rcases resolve?_cases named with rfl | ⟨q, sides, named⟩ | ⟨q, name, named⟩
  · exact .ofSelection (List.forall_mem_singleton.mpr .anything)
  · obtain ⟨s', es, plain, rfl⟩ := exists_enchant_of_enchanted? named
    exact (isMarked_of_quantified? known plain).change (.enchant es)
  · exact isMarked_of_quantified? known named

theorem exists_of_mem_mapM {α β : Type} {f : α → Option β} {as : List α} {bs : List β}
    (h : as.mapM f = some bs) {b : β} (hb : b ∈ bs) : ∃ a ∈ as, f a = some b := by
  induction as generalizing bs with
  | nil =>
    cases h
    cases hb
  | cons a as ih =>
    rw [List.mapM_cons] at h
    simp only [Option.bind_eq_bind, Option.bind_eq_some_iff] at h
    obtain ⟨b', first, bs', rest, same⟩ := h
    cases same
    rcases List.mem_cons.mp hb with rfl | hb
    · exact ⟨a, List.mem_cons_self, first⟩
    · obtain ⟨a', ha, found⟩ := ih rest hb
      exact ⟨a', List.mem_cons_of_mem _ ha, found⟩

theorem isMarked_of_list? (known : x.registry.Reachable) {text : String} {s : Selector}
    (named : x.list? text = some s) : s.IsMarked := by
  rw [list?] at named
  split at named
  · cases named
  · split at named
    · cases named
      exact .ofSelection (List.forall_mem_singleton.mpr .anything)
    · obtain ⟨items, all, rfl⟩ := Option.map_eq_some_iff.mp named
      apply Selector.IsMarked.ofSelection
      intro t ht
      obtain ⟨part, hp, ht⟩ := List.mem_flatten.mp ht
      obtain ⟨name, -, named⟩ := exists_of_mem_mapM all hp
      exact isMarked_of_type? known named t ht

end Context

namespace Selector

theorem Derived.isMarked {s : Selector} (h : s.Derived) : s.IsMarked := by
  induction h with
  | resolved known named => exact Context.isMarked_of_resolve? known named
  | listed known named => exact Context.isMarked_of_list? known named
  | setAmount _ amount ih => exact ih.setAmount amount
  | setAll _ _ ih => exact ⟨ih.types, ih.items, ih.blocks⟩
  | add _ marked ih =>
    exact .setTypes (List.forall_mem_append.mpr ⟨ih.types, List.forall_mem_singleton.mpr marked⟩) _
  | addAll _ marked ih => exact .setTypes (List.forall_mem_append.mpr ⟨ih.types, marked⟩) _
  | remove _ index ih =>
    exact .setTypes (fun t ht => ih.types t (List.mem_of_mem_eraseIdx ht)) _
  | retain _ keep ih => exact .setTypes (fun t ht => ih.types t (List.mem_of_mem_filter ht)) _
  | change _ c ih => exact ih.change c
  | items _ ih => exact .ofSelection ih.itemForm
  | keepItems _ ih =>
    exact ⟨ih.types, fun sub hs => Option.some.inj hs ▸ ih.itemForm, ih.blocks⟩
  | blocks _ ih => exact .ofSelection ih.blockForm
  | keepBlocks _ ih =>
    exact ⟨ih.types, ih.items, fun sub hs => Option.some.inj hs ▸ ih.blockForm⟩
  | baseType => exact .ofSelection (List.forall_mem_map.mpr fun t _ => .baseCopy t)
  | intersection _ _ legacy ih ih' => exact ih.intersection ih' legacy

/-- A selector is one of itself unless some held variant has block states of its own and no variant
covers it.  Two steps make one unless the wildcard stands in the middle alone or all chains of some
variant have a gap. -/
theorem isSupertypeOf_almost_preorder (legacy : Bool) (a b c : Selector) :
    (a.isSupertypeOf legacy a = true ↔ (∃ t ∈ a.types, t.isAnything = true) ∨
      ∀ t ∈ a.types, legacy = false → t.itemForm = true → t.wantsStates = true →
        ∃ u ∈ a.types, t.Fits legacy u) ∧
    (a.isSupertypeOf legacy b = true → b.isSupertypeOf legacy c = true →
      a.isSupertypeOf legacy c = true ∨
      ((∃ y ∈ b.types, y.isAnything = true) ∧ ∀ z ∈ a.types, z.isAnything = false) ∨
      ∃ x ∈ c.types, (∃ y ∈ b.types, ∃ z ∈ a.types, x.Fits legacy y ∧ y.Fits legacy z) ∧
        ∀ y ∈ b.types, ∀ z ∈ a.types, x.Fits legacy y → y.Fits legacy z →
          Item.Gap legacy x y z) ∧
    ∀ x ∈ c.types, ∀ y ∈ b.types, ∀ z ∈ a.types,
      x.isAnything = false → y.isAnything = false → z.isAnything = false →
      x.Fits legacy y → y.Fits legacy z →
        (x.Fits legacy z ↔ ¬ Item.Gap legacy x y z) ∧
        (a.Derived → b.Derived → c.Derived → (Item.Gap legacy x y z ↔ legacy = false ∧
          (x.itemForm = true ∧ z.wantsStates = true ∨
            x.durability ≠ z.durability ∧ z.durabilityGiven = true))) := by
  refine ⟨isSupertypeOf_self_iff legacy a, isSupertypeOf_trans, ?_⟩
  intro x hx y hy z hz boundX boundY boundZ xy yz
  refine ⟨Item.fits_trans_iff boundX boundY boundZ xy yz, fun ha hb hc => ?_⟩
  exact Item.IsMarked.gap_iff (hc.isMarked.types x hx) (hb.isMarked.types y hy)
    (ha.isMarked.types z hz) ((Item.fits_iff_meets boundX boundY).mp xy)
    ((Item.fits_iff_meets boundY boundZ).mp yz)

theorem isSupertypeOf_almost_preorder_of_stairs :
    let p : Platform := ⟨⟨[1, 20, 4]⟩, false, [⟨"minecraft:oak_stairs", true, 0⟩], []⟩
    let name (n id : String) (states : States) : Operation :=
      .register ⟨⟨n, n, .a⟩, id, [], states⟩
    let x := Context.ofRegistry ((Registry.empty p).run [name "stairs" "oak_stairs" [],
      name "north" "oak_stairs" [("facing", "north")],
      name "upper" "oak_stairs" [("facing", "north"), ("half", "top")]])
    ∃ a b c, x.resolve? "stairs" = some a ∧ x.resolve? "north" = some b ∧
      x.resolve? "upper" = some c ∧ a.isSupertypeOf false a = true ∧
      a.isSupertypeOf false b = true ∧ b.isSupertypeOf false c = true ∧
      a.isSupertypeOf false c = true := by
  intro p name x
  have known : x.registry.Reachable := (Registry.Reachable.empty p).run _
  let bare (s : Selector) : Bool :=
    s.types.all fun t => !t.isAnything && !t.itemForm && !t.durabilityGiven
  have resolved : ((x.resolve? "stairs").bind fun a => (x.resolve? "north").bind fun b =>
      (x.resolve? "upper").map fun c => (bare a && bare b && bare c,
        a.isSupertypeOf false b, b.isSupertypeOf false c)) = some (true, true, true) := by
    decide +kernel
  clear_value x
  simp only [Option.bind_eq_some_iff, Option.map_eq_some_iff, Prod.mk.injEq,
    Bool.and_eq_true] at resolved
  obtain ⟨a, ha, b, hb, c, hc, ⟨⟨bareA, bareB⟩, bareC⟩, ab, bc⟩ := resolved
  simp only [bare, List.all_eq_true, Bool.and_eq_true, Bool.not_eq_true'] at bareA bareB bareC
  obtain ⟨self, trans, chains⟩ := isSupertypeOf_almost_preorder false a b c
  refine ⟨a, b, c, ha, hb, hc, self.mpr (.inr fun t ht _ held => ?_), ab, bc, ?_⟩
  · rw [(bareA t ht).1.2] at held
    cases held
  · rcases trans ab bc with whole | ⟨⟨y, hy, any⟩, -⟩ | ⟨i, hi, ⟨j, hj, k, hk, ij, jk⟩, broken⟩
    · exact whole
    · rw [(bareB y hy).1.1] at any
      cases any
    · obtain ⟨-, gap⟩ := chains i hi j hj k hk (bareC i hi).1.1 (bareB j hj).1.1
        (bareA k hk).1.1 ij jk
      obtain ⟨-, ⟨held, -⟩ | ⟨-, given⟩⟩ :=
        (gap (.resolved known ha) (.resolved known hb) (.resolved known hc)).mp
          (broken j hj k hk ij jk)
      · rw [(bareC i hi).1.2] at held
        cases held
      · rw [(bareA k hk).2] at given
        cases given

theorem isSupertypeOf_not_preorder :
    let p : Platform := ⟨⟨[1, 20, 4]⟩, false, [⟨"minecraft:stone", true, 0⟩,
      ⟨"minecraft:oak_stairs", true, 0⟩, ⟨"minecraft:diamond_sword", false, 1561⟩], []⟩
    let wool : MaterialInfo := ⟨"minecraft:wool", true, 0⟩
    let name (n id : String) (tags : Tags) (states : States) : Operation :=
      .register ⟨⟨n, n, .a⟩, id, tags, states⟩
    let x := Context.ofRegistry ((Registry.empty p).run [name "rock" "stone" [] [],
      name "sword" "diamond_sword" [] [], name "worn" "diamond_sword" [("Damage", .int 9)] [],
      name "north" "oak_stairs" [] [("facing", "north")],
      name "old" "oak_stairs" [("Damage", .int 5)] []])
    let y := Context.ofRegistry ((Registry.empty ⟨⟨[1, 12, 2]⟩, true, [wool], []⟩).run
      [name "wool" "minecraft:wool" [] [],
        name "red wool" "minecraft:wool" [("Damage", .int 14)] []])
    let held (s : Selector) := ofSelection s.itemForm.1
    let covers (legacy : Bool) (a b : Option Selector) :=
      a.bind fun a => b.map (isSupertypeOf legacy a)
    let resolve := x.resolve?
    let new (s : Selector) := s.setDurability 0
    let stacked (s : Selector) := (s.remove 0).add (.ofStack 0 wool 14 [])
    covers false ((resolve "north").map held) ((resolve "north").map held) = some false ∧
    (covers false (resolve "rock") (resolve "*") = some true ∧
      covers false (resolve "*") (resolve "sword") = some true ∧
      covers false (resolve "rock") (resolve "sword") = some false) ∧
    (covers false ((resolve "sword").map new) (resolve "sword") = some true ∧
      covers false (resolve "sword") (resolve "worn") = some true ∧
      covers false ((resolve "sword").map new) (resolve "worn") = some false) ∧
    (covers false (resolve "north") (resolve "old") = some true ∧
      covers false (resolve "old") ((resolve "old").map held) = some true ∧
      covers false (resolve "north") ((resolve "old").map held) = some false) ∧
    (covers true (y.resolve? "red wool") ((y.resolve? "wool").map stacked) = some true ∧
      covers true ((y.resolve? "wool").map stacked) (y.resolve? "wool") = some true ∧
      covers true (y.resolve? "red wool") (y.resolve? "wool") = some false) := by
  decide +kernel

end Selector

end ItemLexicon
