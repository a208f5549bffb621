import ItemLexicon.Proofs.BestMatch

namespace ItemLexicon

namespace Item

variable {legacy : Bool} {m : Nat} {info : MaterialInfo} {s i : Item}

/-- The item has a durability, and something was given for it. -/
def HasDataValue (i : Item) : Prop := i.isUnflagged = false ∧ i.durability ≠ 0

instance (i : Item) : Decidable i.HasDataValue := inferInstanceAs (Decidable (_ ∧ _))

namespace IsDefined

theorem decided?_of_isDefault (h : IsDefined m info i) (hd : i.isDefault = true)
    (hs : s.material = some m) : decided? legacy s i =
      if legacy = true ∧ s.HasDataValue then some .different else none := by
  have wants := wantsStates_eq_false hd
  rw [wantsStates] at wants
  rw [decided?, isAnything_eq_false_iff.mpr ⟨m, hs⟩, h.isAnything, hs, h.material, wants,
    h.durability_eq_zero (durabilityGiven_eq_false hd)]
  cases legacy <;> simp [HasDataValue]

theorem compare_eq_different_iff (h : IsDefined m info i) (hd : i.isDefault = true)
    (hs : s.material = some m) :
    s.compare legacy i = .different ↔ legacy = true ∧ s.HasDataValue := by
  have decided : decided? legacy s i = _ := h.decided?_of_isDefault hd hs
  by_cases value : legacy = true ∧ s.HasDataValue
  · rw [if_pos value] at decided
    exact iff_of_true (compare_of_decided decided) value
  · rw [if_neg value] at decided
    have close := h.rank_compare_le_two_of_undecided hd decided
    refine iff_of_false (fun different => ?_) value
    rw [different] at close
    exact absurd close (by decide)

end IsDefined

end Item

variable {p : Platform} {i : Item} {e : Entry}

/-- The entry is the bare one of the material, and the item is another one by its data value. -/
def Entry.IsForeign (legacy : Bool) (i : Item) (e : Entry) : Prop :=
  legacy = true ∧ e.item.isDefault = true ∧ i.HasDataValue

theorem Bucket.Finds.quality_eq_different_iff {b : Bucket} {m : Nat} {found : Match}
    (h : Bucket.Finds p.legacy i b found) (hb : b.Sound p m) (hi : i.material = some m)
    (he : found.entry = some e) :
    found.quality = .different ↔ e.IsForeign p.legacy i := by
  cases h with
  | alternative best before =>
    cases he
    cases best with
    | present split alike first least =>
      have listed : e ∈ b.alternatives := by simp [split]
      refine iff_of_false alike fun ⟨_, isDefault, _⟩ => ?_
      rw [hb.alternatives e listed] at isDefault
      cases isDefault
  | bare bare far =>
    cases he
    obtain ⟨info, -, defined⟩ := hb.defined e (Bucket.mem_entries_of_bare bare)
    have isDefault := hb.bare e bare
    rw [defined.compare_eq_different_iff isDefault hi, Entry.IsForeign, isDefault]
    simp
  | nothing => cases he

theorem Index.Sound.quality_find {ix : Index} (h : ix.Sound p)
    (he : (ix.find p.legacy i).entry = some e) :
    (ix.find p.legacy i).quality = i.compare p.legacy e.item ∧
      ((ix.find p.legacy i).quality = .different ↔ e.IsForeign p.legacy i) := by
  rw [find] at he ⊢
  cases hb : ix.bucketOf? i with
  | none =>
    rw [hb] at he
    cases he
  | some b =>
    rw [hb] at he
    obtain ⟨m, hm, bucket⟩ := Option.bind_eq_some_iff.mp hb
    have found := Bucket.finds_find p.legacy i b
    exact ⟨found.quality_eq he, found.quality_eq_different_iff (h.buckets m b bucket) hm he⟩

theorem Scope.SoundOver.index {ss : List Scope} (h : SoundOver p ss) {s : Scope} (hs : s ∈ ss) :
    s.index.Sound p := by
  induction ss with
  | nil => cases hs
  | cons t below ih =>
    rcases List.mem_cons.mp hs with rfl | hs
    · exact h.1.index
    · exact ih h.2 hs

namespace Registry

/-- Whatever a registry finds for an item, and whatever it names the item after, differs from it
only where there are data values, and then it is the bare entry and the item has one. -/
theorem Reachable.different_iff_of_found {r : Registry} (h : r.Reachable) (i : Item) :
    (∀ e, (r.find i).entry = some e →
      (r.find i).quality = i.compare r.platform.legacy e.item ∧
      ((r.find i).quality = .different ↔ e.IsForeign r.platform.legacy i)) ∧
    ∀ e, r.describing? i = some e → r.nameOf? i = some e.name ∧
      (i.compare r.platform.legacy e.item = .different ↔ e.IsForeign r.platform.legacy i) := by
  constructor
  · intro e he
    exact h.sound.index.quality_find he
  · intro e he
    obtain ⟨s, hs, found⟩ := List.exists_of_findSome?_eq_some he
    obtain ⟨quality, different⟩ := (Scope.SoundOver.index h.sound hs).quality_find found
    rw [nameOf?, he, ← quality]
    exact ⟨rfl, different⟩

theorem different_iff_of_found_wool :
    let p : Platform := ⟨⟨[1, 8, 8]⟩, true, [⟨"minecraft:wool", true, 0⟩], []⟩
    let define (name : String) (tags : Tags) : Operation :=
      .register ⟨⟨name, name, .a⟩, "minecraft:wool", tags, []⟩
    let g := (empty p).run [define "wool" [], define "red wool" [("Damage", .int 14)]]
    let r := g.layer.run [define "cloth" []]
    let i : Item := .ofStack 0 ⟨"minecraft:wool", true, 0⟩ 14 []
    (∃ e, g.describing? i = some e ∧ e.name.singular = "red wool" ∧
      i.compare true e.item ≠ .different) ∧
    ∃ e, (r.find i).entry = some e ∧ e.name.singular = "cloth" ∧
      (r.find i).quality = .different := by
  intro p define g r i
  have lower : Reachable g := (Reachable.empty p).run _
  have upper : Reachable r := lower.layer.run _
  have legacy : g.platform.legacy = true := by
    rw [run_platform]
    rfl
  have legacy' : r.platform.legacy = true := by
    rw [run_platform]
    exact legacy
  have value : i.HasDataValue := by decide
  have red : (g.describing? i).map (fun e => (e.name.singular, e.item.isDefault)) =
      some ("red wool", false) := by decide
  have cloth : (r.find i).entry.map (fun e => (e.name.singular, e.item.isDefault)) =
      some ("cloth", true) := by decide
  clear_value g r i
  constructor
  · obtain ⟨e, he, row⟩ := Option.map_eq_some_iff.mp red
    rw [Prod.mk.injEq] at row
    obtain ⟨-, different⟩ := (lower.different_iff_of_found i).2 e he
    rw [legacy] at different
    refine ⟨e, he, row.1, fun h => ?_⟩
    obtain ⟨-, bare, -⟩ := different.mp h
    rw [row.2] at bare
    cases bare
  · obtain ⟨e, he, row⟩ := Option.map_eq_some_iff.mp cloth
    rw [Prod.mk.injEq] at row
    obtain ⟨-, different⟩ := (upper.different_iff_of_found i).1 e he
    exact ⟨e, he, row.1, different.mpr ⟨legacy', row.2, value⟩⟩

theorem found_as_different_wool :
    let wool : MaterialInfo := ⟨"minecraft:wool", true, 0⟩
    let r := (empty ⟨⟨[1, 8, 8]⟩, true, [wool], []⟩).run
      [.register ⟨⟨"cloth", "cloth", .unspecified⟩, "minecraft:wool", [], []⟩]
    let i : Item := .ofDefinition 0 wool [("Damage", .int 14)] []
    r.Reachable ∧ (r.find i).quality = .different ∧
      (r.find i).entry.map (fun e => (e.name.singular, i.compare true e.item)) =
        some ("cloth", .different) ∧
      (r.nameOf? i).map AliasName.singular = some "cloth" := by
  intro wool r i
  exact ⟨(Reachable.empty _).run _, by decide⟩

end Registry

end ItemLexicon
