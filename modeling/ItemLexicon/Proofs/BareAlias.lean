import ItemLexicon.Proofs.AddedAlias
import ItemLexicon.Proofs.BareItem
import ItemLexicon.Proofs.NameLookups

namespace ItemLexicon

namespace Item

variable {m : Nat} {info : MaterialInfo} {s t : Item} {legacy : Bool}

theorem IsDefined.isSameItem_iff (ht : IsDefined m info t) :
    t.isSameItem legacy s = true ↔ s.Fits legacy t := by
  rw [isSameItem, isAlias, ht.fromAlias, Bool.true_or, if_pos rfl, Fits]

end Item

namespace Context

/-- A name with a quantifier in front, and nothing else to take off it. -/
structure Cites (text : String) (q : Quantifier) (key : List Char) : Prop where
  read : Quantifier.read (Text.lower (Text.trim text.toList)) = (q, key)
  ne_everything : Text.lower (Text.trim text.toList) ≠ ['*']
  ne_nil : key ≠ []
  word : key.all Char.isDigit = false
  unparted : ¬" of ".toList <:+: key
  single : ¬"any ".toList <+: key

variable {c : Context} {text : String} {q : Quantifier} {key : List Char}

theorem Cites.resolve?_eq (h : Cites text q key) {items : List Item} (ne : items ≠ [])
    (known : c.items? key = some items) : c.resolve? text = some (q.selector.addAll items) := by
  have named : (Text.lower (Text.trim text.toList)).isEmpty = false := by
    refine List.isEmpty_eq_false_iff.mpr fun none => h.ne_nil ?_
    have suffix := Quantifier.isSuffix_read (Text.lower (Text.trim text.toList))
    rw [h.read, none] at suffix
    exact List.suffix_nil.mp suffix
  have listed : c.type? key = some items := by
    have single := Text.dropPrefix?_of_not_prefix h.single
    simp only [type?, List.isEmpty_eq_false_iff.mpr h.ne_nil, h.word, Bool.false_eq_true, if_false,
      alias?, single, Option.getD_none, known]
  obtain ⟨i, rest, rfl⟩ := List.exists_cons_of_ne_nil ne
  simp only [resolve?, named, Bool.false_eq_true, if_false, h.ne_everything, h.read,
    Text.cutsAt_of_not_infix h.unparted, List.findSome?_nil, Option.none_or, quantified?, listed]

end Context

namespace Registry

variable {r r' : Registry} {name : AliasName} {id : String}

theorem Reachable.exists_bare (h : r.Reachable) (new : r.entries? id = none)
    (ok : r.addAlias name id [] [] = (none, r')) :
    ∃ m info e, r.platform.material? id = some m ∧ r.platform.info? m = some info ∧
      e.item.IsDefined m info ∧
      (Item.ofDefinition m info [] []).compare r.platform.legacy e.item = .exact ∧
      (e.item = .ofDefinition m info [] [] ∨ e ∈ r.scope.index.entries) ∧
      ∀ n, name.HasKey (Text.lowercase n) →
        r'.entries? n = some (r.scope.listAt (r.scope.target name) ++ [e]) := by
  let c : Registration := ⟨name, id, [], []⟩
  have attempt : r.attempt c = (none, r') := ok
  have succeeds : (r.attempt c).1 = none := by rw [attempt]
  obtain rfl : r.register c = r' := by rw [register, attempt]
  rcases h.sound.register_cases c with ⟨fault, -⟩ | ⟨-, es, brings, same⟩
  · exact absurd succeeds fault
  cases brings with
  | reference known =>
    rw [new] at known
    cases known
  | @item m info e _ material row _ found =>
    have asked := c.isDefined m info
    obtain ⟨listed, exact'⟩ := Index.mem_of_equal? found
    obtain ⟨b, bucket, mem, -⟩ := Index.exists_bucket_of_equal? asked.material found
    obtain ⟨info', row', defined⟩ := ((h.sound.register c).index.buckets m b bucket).defined e mem
    rw [register_platform] at row' exact'
    obtain rfl : info = info' := Option.some.inj (row.symm.trans row')
    refine ⟨m, info, e, material, row, defined, exact', ?_, fun n hn => ?_⟩
    · by_cases there : e ∈ r.scope.index.entries
      · exact .inr there
      · -- The index has grown, so it had no exact match, and the one found is the new entry.
        obtain ⟨kept, grown⟩ := h.sound.index_register_of_definition succeeds new material row
        have other : ∀ x ∈ r.scope.index.entries,
            (c.item m info).compare r.platform.legacy x.item ≠ .exact := by
          intro x hx exact''
          rw [kept ⟨x, hx, exact''⟩] at listed
          exact there listed
        rcases List.mem_cons.mp ((grown other).mem_iff.mp listed) with rfl | old
        · exact .inl rfl
        · exact absurd old there
    · exact h.bound.entries?_register_of_hasKey same hn

/-- The bare item takes every item of its material.  So does a name that lists it or its exact
duplicate, unless that has a durability of zero written down and the item is worn. -/
theorem Reachable.bare_takes (h : r.Reachable) (modern : r.platform.legacy = false) :
    (∀ m info s, Item.IsOf m info s →
      (s.compare r.platform.legacy (.ofDefinition m info [] [])).isAtLeast .sameItem = true) ∧
    ∀ name id r', r.entries? id = none → r.addAlias name id [] [] = (none, r') →
      ∃ m info e, r.platform.material? id = some m ∧ r.platform.info? m = some info ∧
        (Item.ofDefinition m info [] []).compare r.platform.legacy e.item = .exact ∧
        (e.item = .ofDefinition m info [] [] ∨ e ∈ r.scope.index.entries) ∧
        (∀ n, name.HasKey (Text.lowercase n) → ∃ es, r'.entries? n = some es ∧ e ∈ es) ∧
        ∀ (c : Context) text q key es, Context.Cites text q key →
          c.registry.entries? (String.ofList key) = some es → e ∈ es →
          ∃ sel, c.resolve? text = some sel ∧ ∀ s, Item.IsOf m info s →
            (e.item.durabilityGiven = false ∨ s.durability = 0 →
              sel.isOfType r.platform.legacy s = true) ∧
            (es = [e] → sel.isOfType r.platform.legacy s = true →
              e.item.durabilityGiven = false ∨ s.durability = 0) := by
  refine ⟨fun m info s hs => ?_, fun name id r' new ok => ?_⟩
  · rw [modern]
    exact hs.fits_bare
  · obtain ⟨m, info, e, material, row, defined, duplicate, origin, listed⟩ := h.exists_bare new ok
    refine ⟨m, info, e, material, row, duplicate, origin, fun n hn => ?_, ?_⟩
    · exact ⟨_, listed n hn, List.mem_append_right _ (List.mem_singleton_self e)⟩
    · intro c text q key es cites known he
      have items : c.items? key = some (es.map Entry.item) := by rw [Context.items?, known]; rfl
      have resolved := cites.resolve?_eq (List.ne_nil_of_mem (List.mem_map_of_mem he)) items
      refine ⟨_, resolved, fun s hs => ?_⟩
      have types : (q.selector.addAll (es.map Entry.item)).types = es.map Entry.item := rfl
      have takes : e.item.isSameItem r.platform.legacy s = true ↔
          e.item.durabilityGiven = false ∨ s.durability = 0 := by
        rw [defined.isSameItem_iff, modern]
        exact hs.fits_iff_of_duplicate defined duplicate
      rw [Selector.isOfType, types, List.any_eq_true]
      constructor
      · exact fun free => ⟨e.item, List.mem_map_of_mem he, takes.mpr free⟩
      · rintro rfl ⟨t, ht, same⟩
        obtain rfl : t = e.item := List.mem_singleton.mp ht
        exact takes.mp same

theorem bare_takes_stairs :
    let info : MaterialInfo := ⟨"minecraft:oak_stairs", true, 0⟩
    let p : Platform := ⟨⟨[1, 20, 4]⟩, false, [info], []⟩
    let r := (empty p).addAlias ⟨"stair", "stairs", .a⟩ "oak_stairs" [] []
    r.1 = none ∧ Context.Cites "2 stairs" ⟨2, false⟩ "stairs".toList ∧
      ∃ sel, (Context.ofRegistry r.2).resolve? "2 stairs" = some sel ∧
        ∀ s ∈ [Item.ofBlock 0 info [("facing", "north")],
            .ofStack 0 info 3 [("display", .compound [("Name", .text "Up")])],
            .ofDefinition 0 info [("Damage", .int 3)] [("half", "top")]],
          sel.isOfType p.legacy s = true := by
  intro info p r
  have ok : r = (none, r.2) := Prod.ext rfl rfl
  have cites : Context.Cites "2 stairs" ⟨2, false⟩ "stairs".toList :=
    ⟨by decide +kernel, by decide +kernel, by decide, by decide, by decide, by decide⟩
  have material : p.material? "oak_stairs" = some 0 := by decide +kernel
  have new : (empty p).entries? "oak_stairs" = none := by decide +kernel
  obtain ⟨m, info', e, material', row, -, origin, listed, named⟩ :=
    ((Reachable.empty p).bare_takes rfl).2 _ _ _ new ok
  obtain rfl : 0 = m := Option.some.inj (material.symm.trans material')
  obtain rfl : info = info' := Option.some.inj row
  obtain ⟨es, known, he⟩ := listed "stairs" (by decide +kernel)
  obtain ⟨sel, resolved, takes⟩ := named (.ofRegistry r.2) _ _ _ es cites known he
  have bare : e.item.durabilityGiven = false := by
    rw [origin.resolve_right List.not_mem_nil]
    rfl
  refine ⟨rfl, cites, sel, resolved, ?_⟩
  simp only [List.forall_mem_cons, List.not_mem_nil, false_imp_iff, implies_true, and_true]
  exact ⟨(takes _ (.ofBlock rfl _)).1 (.inl bare), (takes _ (.ofStack 3 _)).1 (.inl bare),
    (takes _ (.ofDefinition _ _)).1 (.inl bare)⟩

theorem worn_sword_is_not_of_bare_type :
    let info : MaterialInfo := ⟨"minecraft:diamond_sword", false, 1561⟩
    let p : Platform := ⟨⟨[1, 20, 4]⟩, false, [info], []⟩
    let sword (name : String) (tags : Tags) : Operation :=
      .register ⟨⟨name, name, .a⟩, "diamond_sword", tags, []⟩
    let c := Context.ofRegistry
      ((empty p).run [sword "zero sword" [("Damage", .int 0)], sword "sword" []])
    let worn := Item.ofStack 0 info 10 []
    (worn.compare p.legacy (.ofDefinition 0 info [] [])).isAtLeast .sameItem = true ∧
      (c.resolve? "sword").map (·.isOfType p.legacy worn) = some false := by
  decide +kernel

end Registry

end ItemLexicon
