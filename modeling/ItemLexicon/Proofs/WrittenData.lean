import ItemLexicon.Loading.Loader
import ItemLexicon.Proofs.TopLevel

namespace ItemLexicon

def Registration.written (name : AliasName) (id : String) (v : Variation) : Registration :=
  ⟨name, Text.lowercase id, v.tags, v.states⟩

theorem Registration.item_written (name : AliasName) (id : String) (v : Variation) (m : Nat)
    (info : MaterialInfo) : (written name id v).item m info =
      .ofDefinition m info v.tags (Dictionary.erase Registry.relatedEntityState v.states) := rfl

namespace Registry

variable {r : Registry} {c : Registration} {es : List Entry}

theorem addAlias_of_reference {name : AliasName} {id : String} (known : r.entries? id = some es)
    (tags : Tags) (states : States) :
    r.addAlias name id tags states = (none, { r with scope := r.scope.bind name es }) := by
  rw [addAlias, entriesFor, known]

theorem Bound.entries?_register_of_hasKey (h : r.Bound)
    (same : (r.register c).scope.SameNames (r.scope.bind c.name es)) {n : String}
    (hk : c.name.HasKey (Text.lowercase n)) :
    (r.register c).entries? n = some (r.scope.listAt (r.scope.target c.name) ++ es) := by
  have bound : (r.register c).scope.handle? (Text.lowercase n) =
      some (r.scope.target c.name) := by
    rw [same.handle?, Scope.handle?_bind, if_pos hk]
  rw [entries?_of_handle? bound, same.listAt, Scope.listAt_bind (h r.scope List.mem_cons_self),
    if_pos rfl]

theorem Bound.entries?_register (h : r.Bound)
    (same : (r.register c).scope.SameNames (r.scope.bind c.name es)) {form : String}
    (hf : form ∈ [c.name.singular, c.name.plural]) :
    (r.register c).entries? form = some (r.scope.listAt (r.scope.target c.name) ++ es) :=
  h.entries?_register_of_hasKey same (AliasName.hasKey_of_mem hf)

theorem Brings.exists_exact (h : r.Sound) (brings : r.Brings c es)
    (new : r.entries? c.id = none) :
    ∃ m info e, r.platform.material? c.id = some m ∧ r.platform.info? m = some info ∧
      es = [e] ∧ e.item.material = some m ∧
      e.item.compare r.platform.legacy (c.item m info) = .exact ∧
      (c.item m info).compare r.platform.legacy e.item = .exact := by
  cases brings with
  | reference known =>
    rw [new] at known
    cases known
  | @item m info e _ material row _ found =>
    have sound := (h.register c).index
    have asked := c.isDefined m info
    obtain ⟨listed, agrees⟩ := (sound.equal?_eq_some_iff asked).mp found
    obtain ⟨_, b, _, bucket, mem⟩ := sound.mem_bucket listed
    obtain ⟨_, _, defined⟩ := (sound.buckets _ b bucket).defined e mem
    exact ⟨m, info, e, material, row, rfl, agrees.material.symm,
      (defined.compare_eq_exact_iff asked).mpr agrees.symm,
      (asked.compare_eq_exact_iff defined).mpr agrees⟩

end Registry

namespace Loader

variable {p : Place} {name : AliasName} {v item : Variation} {l : Loader}

theorem diagnostics_report_ne (l : Loader) (p : Place) (fault : Fault) :
    (l.report p fault).diagnostics ≠ l.diagnostics := by
  intro same
  simpa [report] using congrArg List.length same

theorem exists_registration_of_silent
    (silent : (addItem p name v l item).diagnostics = l.diagnostics) :
    ∃ id, (item.merge v).id = some id ∧
      (l.registry.attempt (.written name id (item.merge v))).1 = none ∧
      (addItem p name v l item).registry =
        l.registry.register (.written name id (item.merge v)) := by
  rw [addItem] at silent ⊢
  cases hid : (item.merge v).id with
  | none =>
    simp only [hid] at silent
    exact absurd silent (diagnostics_report_ne _ _ _)
  | some id =>
    refine ⟨id, rfl, ?_⟩
    simp only [hid] at silent ⊢
    rw [Registry.register, Registry.attempt, Registration.written]
    cases hc : l.registry.addAlias name (Text.lowercase id) (item.merge v).tags
        (item.merge v).states with
    | mk fault r =>
      simp only [hc] at silent ⊢
      cases fault with
      | none => exact ⟨rfl, rfl⟩
      | some fault => exact absurd silent (diagnostics_report_ne _ _ _)

/-- An accepted definition adds to what both forms of its name list: the entries of the alias that
its id names, or else one whose item matches that of the tags and states exactly. -/
theorem addItem_of_silent (h : l.registry.Reachable)
    (silent : (addItem p name v l item).diagnostics = l.diagnostics) :
    ∃ id es, (item.merge v).id = some id ∧
      (∀ form ∈ [name.singular, name.plural], (addItem p name v l item).registry.entries? form =
        some (l.registry.scope.listAt (l.registry.scope.target name) ++ es)) ∧
      (∀ known, l.registry.entries? (Text.lowercase id) = some known → es = known ∧
        l.registry.addAlias name (Text.lowercase id) [] [] =
          (none, (addItem p name v l item).registry)) ∧
      (l.registry.entries? (Text.lowercase id) = none → ∃ m info e,
        l.registry.platform.material? (Text.lowercase id) = some m ∧
        l.registry.platform.info? m = some info ∧ es = [e] ∧ e.item.material = some m ∧
        let written := Item.ofDefinition m info (item.merge v).tags
          (Dictionary.erase Registry.relatedEntityState (item.merge v).states)
        e.item.compare l.registry.platform.legacy written = .exact ∧
          written.compare l.registry.platform.legacy e.item = .exact) := by
  obtain ⟨id, hid, ok, after⟩ := exists_registration_of_silent silent
  rcases h.sound.register_cases (.written name id (item.merge v)) with
    ⟨failed, -⟩ | ⟨-, es, brings, same⟩
  · exact absurd ok failed
  refine ⟨id, es, hid, ?_, ?_, ?_⟩
  · intro form hf
    rw [after]
    exact h.bound.entries?_register same hf
  · intro known hk
    have listed : es = known := by
      cases brings with
      | reference known' => exact Option.some.inj (known'.symm.trans hk)
      | item new => exact absurd (hk.symm.trans new) (Option.some_ne_none known)
    refine ⟨listed, ?_⟩
    rw [after, Registry.register, Registry.attempt, Registration.written]
    simp only [Registry.addAlias_of_reference hk]
  · intro new
    obtain ⟨m, info, e, material, row, one, of, forth, back⟩ := brings.exists_exact h.sound new
    rw [Registration.item_written] at forth back
    exact ⟨m, info, e, material, row, one, of, forth, back⟩

theorem addItem_of_silent_of_swords :
    let p : Platform := ⟨⟨[1, 20, 4]⟩, false, [⟨"minecraft:diamond_sword", false, 1561⟩], []⟩
    let r := (Registry.empty p).run [.register ⟨⟨"sword", "swords", .a⟩, "diamond_sword", [], []⟩]
    let worn (id : String) : Variation := ⟨some id, none, [("Damage", .int 10)], []⟩
    let add (id : String) :=
      addItem ⟨none, 3⟩ ⟨"blade", "blades", .a⟩ .empty (start r []) (worn id)
    (∃ e, (add "Diamond_Sword").registry.entries? "blades" = some [e] ∧
      e.item.compare false (.ofDefinition 0 ⟨"minecraft:diamond_sword", false, 1561⟩
        [("Damage", .int 10)] []) = .exact) ∧
    (add "Swords").registry.entries? "blades" = r.entries? "swords" := by
  intro p r worn add
  have reachable : r.Reachable := (Registry.Reachable.empty p).run _
  have platform : r.platform = p := Registry.run_platform _ _
  let blade : AliasName := ⟨"blade", "blades", .a⟩
  have fresh : r.scope.listAt (r.scope.target blade) = [] := by decide +kernel
  have material : p.material? (Text.lowercase "Diamond_Sword") = some 0 := by decide +kernel
  have new : r.entries? (Text.lowercase "Diamond_Sword") = none := by decide +kernel
  have silent : (add "Diamond_Sword").diagnostics = (start r []).diagnostics := by decide +kernel
  have silent' : (add "Swords").diagnostics = (start r []).diagnostics := by decide +kernel
  have known : (r.entries? (Text.lowercase "Swords")).isSome = true := by decide +kernel
  have folded : Text.lowercase "Swords" = "swords" := by decide +kernel
  have forms : "blades" ∈ [blade.singular, blade.plural] := by decide
  clear_value r
  constructor
  · obtain ⟨id, es, hid, lists, -, built⟩ := addItem_of_silent reachable silent
    obtain rfl : "Diamond_Sword" = id := Option.some.inj hid
    obtain ⟨m, info, e, material', row, rfl, -, written, -⟩ := built new
    simp only [start, platform] at material' row written
    obtain rfl : 0 = m := Option.some.inj (material.symm.trans material')
    obtain rfl : _ = info := Option.some.inj row
    refine ⟨e, ?_, written⟩
    rw [lists _ forms]
    exact congrArg (fun es => some (es ++ [e])) fresh
  · obtain ⟨id, es, hid, lists, referred, -⟩ := addItem_of_silent reachable silent'
    obtain rfl : "Swords" = id := Option.some.inj hid
    obtain ⟨listed, hl⟩ := Option.isSome_iff_exists.mp known
    obtain ⟨rfl, -⟩ := referred listed hl
    rw [lists _ forms]
    rw [folded] at hl
    exact (congrArg (fun fs => some (fs ++ es)) fresh).trans hl.symm

theorem reference_drops_tags :
    let p : Platform := ⟨⟨[1, 20, 4]⟩, false, [⟨"minecraft:diamond_sword", false, 1561⟩], []⟩
    let l := (start (Registry.empty p) []).addAlias ⟨none, 2⟩ "sword" "diamond_sword"
    let l' := l.addAlias ⟨none, 3⟩ "worn sword" "sword {Damage: 10}"
    let written := Item.ofDefinition 0 ⟨"minecraft:diamond_sword", false, 1561⟩
      [("Damage", .int 10)] []
    l'.diagnostics = [] ∧ (l'.registry.entries? "worn sword").map (List.map fun e =>
      (e.item.durability, e.item.compare false written, written.compare false e.item)) =
        some [(0, .sameMaterial, .sameItem)] := by
  decide +kernel

end Loader

end ItemLexicon
