import ItemLexicon.Proofs.WrittenData

namespace ItemLexicon

namespace Index

variable {legacy : Bool} {ix : Index} {i : Item} {e : Entry} {m : Nat}

theorem exists_bucket_of_equal? (hi : i.material = some m) (h : ix.equal? legacy i = some e) :
    ∃ b, bucket? m ix = some b ∧ e ∈ b.entries ∧ i.compare legacy e.item = .exact := by
  obtain ⟨b, bucket, found⟩ := Option.bind_eq_some_iff.mp h
  rw [bucketOf?, hi, Option.bind_some] at bucket
  exact ⟨b, bucket, Bucket.mem_of_equal? found⟩

theorem Sound.equal?_of_compare {p : Platform} {info : MaterialInfo} (h : ix.Sound p)
    (hi : i.IsDefined m info) (he : e ∈ ix.entries) (exact' : i.compare legacy e.item = .exact) :
    ix.equal? legacy i = some e := by
  obtain ⟨n, b, -, bucket, mem⟩ := h.mem_bucket he
  obtain ⟨_, -, defined⟩ := (h.buckets n b bucket).defined e mem
  exact (h.equal?_eq_some_iff hi).mpr ⟨he, (hi.compare_eq_exact_iff defined).mp exact'⟩

end Index

namespace Registry

variable {r : Registry} {c : Registration} {m : Nat} {info : MaterialInfo} {s : Scope}

theorem Outcome.index_of_definition (o : Outcome r c none s) (new : r.entries? c.id = none)
    (material : r.platform.material? c.id = some m) (row : r.platform.info? m = some info) :
    s.index = if r.equal? (c.item m info) = none then
      r.scope.index.add (c.entry r.scope.nextSerial m info) else r.scope.index := by
  cases o with
  | reference known =>
    rw [new] at known
    cases known
  | repeated _ material' row' _ found =>
    obtain rfl := Option.some.inj (material.symm.trans material')
    obtain rfl := Option.some.inj (row.symm.trans row')
    rw [found, if_neg (Option.some_ne_none _), Scope.bind_index, Scope.mark_index]
  | fresh _ material' row' _ absent =>
    obtain rfl := Option.some.inj (material.symm.trans material')
    obtain rfl := Option.some.inj (row.symm.trans row')
    rw [if_pos absent, Scope.bind_index]

theorem Sound.index_register_of_definition (h : r.Sound) (ok : (r.attempt c).1 = none)
    (new : r.entries? c.id = none) (material : r.platform.material? c.id = some m)
    (row : r.platform.info? m = some info) :
    ((∃ x ∈ r.scope.index.entries,
        (c.item m info).compare r.platform.legacy x.item = .exact) →
      (r.register c).scope.index = r.scope.index) ∧
    ((∀ x ∈ r.scope.index.entries,
        (c.item m info).compare r.platform.legacy x.item ≠ .exact) →
      (r.register c).scope.index.entries.Perm
        (c.entry r.scope.nextSerial m info :: r.scope.index.entries)) := by
  obtain ⟨fault, s, hs, o⟩ := exists_outcome r c
  rw [hs] at ok
  obtain rfl : fault = none := ok
  have after : (r.register c).scope.index = s.index := by
    rw [Registry.register, hs]
  rw [after, o.index_of_definition new material row]
  constructor
  · rintro ⟨x, hx, exact'⟩
    have found := h.index.equal?_of_compare (c.isDefined m info) hx exact'
    rw [equal?, found, if_neg (Option.some_ne_none _)]
  · intro other
    have absent : r.equal? (c.item m info) = none := by
      rw [Option.eq_none_iff_forall_ne_some]
      intro x found
      obtain ⟨hx, exact'⟩ := Index.mem_of_equal? found
      exact other x hx exact'
    rw [if_pos absent]
    exact h.index.entries_add row (c.isDefined m info) absent

/-- After a successful registration both forms of the name, in any letter case, list the same items:
those of the alias that the id names, or else one that the item of the definition matches exactly,
which the index gains unless it was there. -/
theorem Reachable.lookup_addAlias {r r' : Registry} (h : r.Reachable) {name : AliasName}
    {id : String} {tags : Tags} {states : States}
    (ok : r.addAlias name id tags states = (none, r')) :
    ∃ s, (∀ n, name.HasKey (Text.lowercase n) → r'.lookup n = some s) ∧
      (∀ old, r.lookup id = some old →
        old.types ⊆ s.types ∧ r'.scope.index = r.scope.index) ∧
      (r.lookup id = none → ∃ m info, r.platform.material? id = some m ∧
        r.platform.info? m = some info ∧
        let defined := Item.ofDefinition m info tags (Dictionary.erase relatedEntityState states)
        (∃ b e, Index.bucket? m r'.scope.index = some b ∧ e ∈ b.entries ∧ e.item ∈ s.types ∧
          defined.compare r.platform.legacy e.item = .exact) ∧
        ((∃ x ∈ r.scope.index.entries, defined.compare r.platform.legacy x.item = .exact) →
          r'.scope.index = r.scope.index) ∧
        ((∀ x ∈ r.scope.index.entries, defined.compare r.platform.legacy x.item ≠ .exact) →
          ∃ e, e.item = defined ∧ e.name = name ∧ e.id = id ∧
            r'.scope.index.entries.Perm (e :: r.scope.index.entries))) := by
  let c : Registration := ⟨name, id, tags, states⟩
  have attempt : r.attempt c = (none, r') := ok
  have succeeds : (r.attempt c).1 = none := by rw [attempt]
  obtain rfl : r.register c = r' := by rw [register, attempt]
  rcases h.sound.register_cases c with ⟨fault, -⟩ | ⟨-, es, brings, same⟩
  · exact absurd succeeds fault
  have listed {e : Entry} (he : e ∈ es) :
      e.item ∈ (r.scope.listAt (r.scope.target name) ++ es).map Entry.item :=
    List.mem_map_of_mem (List.mem_append_right _ he)
  refine ⟨.ofItems ((r.scope.listAt (r.scope.target name) ++ es).map Entry.item), ?_, ?_, ?_⟩
  · intro n hn
    exact lookup_of_entries? (h.bound.entries?_register_of_hasKey same hn)
  · intro old ho
    obtain ⟨known, hk, rfl⟩ := Option.map_eq_some_iff.mp ho
    cases brings with
    | item new =>
      rw [new] at hk
      cases hk
    | reference known' =>
      obtain rfl := Option.some.inj (hk.symm.trans known')
      constructor
      · intro i hi
        obtain ⟨e, he, rfl⟩ := List.mem_map.mp hi
        exact listed he
      · rw [addAlias_of_reference hk, Prod.mk.injEq] at ok
        rw [← ok.2]
        exact Scope.bind_index ..
  · intro new
    rw [lookup, Option.map_eq_none_iff] at new
    cases brings with
    | reference known =>
      rw [new] at known
      cases known
    | @item m info e _ material row _ found =>
      obtain ⟨kept, grown⟩ := h.sound.index_register_of_definition succeeds new material row
      have asked := c.isDefined m info
      obtain ⟨b, bucket, mem, exact'⟩ := Index.exists_bucket_of_equal? asked.material found
      rw [register_platform] at exact'
      refine ⟨m, info, material, row, ?_, kept, ?_⟩
      · exact ⟨b, e, bucket, mem, listed List.mem_cons_self, exact'⟩
      · intro other
        exact ⟨_, rfl, rfl, rfl, grown other⟩

theorem lookup_addAlias_of_boats :
    let boat : MaterialInfo := ⟨"minecraft:oak_boat", false, 0⟩
    let p : Platform := ⟨⟨[1, 20, 4]⟩, false, [boat], []⟩
    let chest : Tags := [("Items", .list [])]
    let worn : Tags := [("Damage", .int 1)]
    let define (name : String) (tags : Tags) : Operation :=
      .register ⟨⟨name, name, .a⟩, "oak_boat", tags, []⟩
    let r := ((empty p).run [define "boat" []]).layer.run [define "chest boat" chest]
    (∃ r' old s, r.addAlias ⟨"ship", "ships", .a⟩ "Boat" worn [] = (none, r') ∧
      r.lookup "Boat" = some old ∧ r'.lookup "SHIPS" = some s ∧ old.types ⊆ s.types ∧
      r'.scope.index = r.scope.index) ∧
    (∃ r' s, r.addAlias ⟨"crate", "crates", .a⟩ "oak_boat" chest [] = (none, r') ∧
      r'.lookup "Crate" = some s ∧ r'.lookup "crates" = some s ∧
      r'.scope.index = r.scope.index) ∧
    ∃ r' e, r.addAlias ⟨"wreck", "wrecks", .a⟩ "oak_boat" worn [] = (none, r') ∧
      e.item = .ofDefinition 0 boat worn [] ∧
      r'.scope.index.entries.Perm (e :: r.scope.index.entries) := by
  intro boat p chest worn define r
  have reachable : Reachable r := (((Reachable.empty p).run _).layer).run _
  have platform : r.platform = p := (run_platform ..).trans (run_platform (empty p) _)
  have ship : (r.addAlias ⟨"ship", "ships", .a⟩ "Boat" worn []).1 = none := by decide +kernel
  have crate : (r.addAlias ⟨"crate", "crates", .a⟩ "oak_boat" chest []).1 = none := by
    decide +kernel
  have wreck : (r.addAlias ⟨"wreck", "wrecks", .a⟩ "oak_boat" worn []).1 = none := by
    decide +kernel
  have known : (r.lookup "Boat").isSome = true := by decide +kernel
  have new : r.lookup "oak_boat" = none := by decide +kernel
  have material : p.material? "oak_boat" = some 0 := by decide +kernel
  have there : ∃ x ∈ r.scope.index.entries,
      (Item.ofDefinition 0 boat chest []).compare p.legacy x.item = .exact := by decide +kernel
  have missing : ∀ x ∈ r.scope.index.entries,
      (Item.ofDefinition 0 boat worn []).compare p.legacy x.item ≠ .exact := by decide +kernel
  have succeeds {o : Option Fault × Registry} (h : o.1 = none) : o = (none, o.2) := Prod.ext h rfl
  clear_value r
  refine ⟨?_, ?_, ?_⟩
  · have ok := succeeds ship
    obtain ⟨s, lists, referred, -⟩ := reachable.lookup_addAlias ok
    obtain ⟨old, ho⟩ := Option.isSome_iff_exists.mp known
    exact ⟨_, old, s, ok, ho, lists "SHIPS" (by decide +kernel), referred old ho⟩
  · have ok := succeeds crate
    obtain ⟨s, lists, -, defines⟩ := reachable.lookup_addAlias ok
    obtain ⟨m, info, material', row, -, kept, -⟩ := defines new
    rw [platform] at material' row kept
    obtain rfl : 0 = m := Option.some.inj (material.symm.trans material')
    obtain rfl : boat = info := Option.some.inj row
    exact ⟨_, s, ok, lists "Crate" (by decide +kernel), lists "crates" (by decide +kernel),
      kept there⟩
  · have ok := succeeds wreck
    obtain ⟨s, -, -, defines⟩ := reachable.lookup_addAlias ok
    obtain ⟨m, info, material', row, -, -, grown⟩ := defines new
    rw [platform] at material' row grown
    obtain rfl : 0 = m := Option.some.inj (material.symm.trans material')
    obtain rfl : boat = info := Option.some.inj row
    obtain ⟨e, item, -, -, perm⟩ := grown missing
    exact ⟨_, e, ok, item, perm⟩

end Registry

end ItemLexicon
