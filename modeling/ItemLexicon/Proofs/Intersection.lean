import ItemLexicon.Proofs.Supertypes

namespace ItemLexicon

namespace Item

instance (legacy : Bool) (s t : Item) : Decidable (s.Fits legacy t) :=
  inferInstanceAs (Decidable (_ = true))

/-- A held item that asks for block states.  Held items have none where there are no data values, so
none of them matches it, and it does not match itself. -/
def IsHeldBlock (legacy : Bool) (i : Item) : Prop :=
  i.isAnything = false ∧ legacy = false ∧ i.itemForm = true ∧ i.wantsStates = true

instance (legacy : Bool) : DecidablePred (IsHeldBlock legacy) :=
  fun _ => inferInstanceAs (Decidable (_ ∧ _))

theorem fits_self_iff_not_isHeldBlock {legacy : Bool} {i : Item} :
    i.Fits legacy i ↔ ¬i.IsHeldBlock legacy := by
  cases any : i.isAnything with
  | true =>
    refine iff_of_true (fits_of_isAnything (.inl any)) fun held => ?_
    rw [held.1] at any
    cases any
  | false => simp [fits_self_iff any, IsHeldBlock, any]

end Item

namespace Selector

variable {legacy : Bool} {x y r : Item}

theorem narrower?_eq_some_iff : narrower? legacy x y = some r ↔
    r = x ∧ x.Fits legacy y ∨ r = y ∧ y.Fits legacy x ∧ ¬x.Fits legacy y := by
  rw [narrower?, Item.Fits, Item.Fits]
  cases (x.compare legacy y).isAtLeast .sameItem <;>
    cases (y.compare legacy x).isAtLeast .sameItem <;> simp [eq_comm]

theorem exists_narrower?_iff :
    (∃ r, narrower? legacy x y = some r) ↔ x.Fits legacy y ∨ y.Fits legacy x := by
  simp only [narrower?_eq_some_iff]
  by_cases first : x.Fits legacy y
  · exact iff_of_true ⟨x, .inl ⟨rfl, first⟩⟩ (.inl first)
  · simp [first]

theorem eq_of_narrower? (h : narrower? legacy x y = some r) :
    r = x ∧ r.Fits legacy y ∨ r = y ∧ r.Fits legacy x := by
  rcases narrower?_eq_some_iff.mp h with ⟨rfl, fits⟩ | ⟨rfl, fits, -⟩
  · exact .inl ⟨rfl, fits⟩
  · exact .inr ⟨rfl, fits⟩

theorem fits_both_iff_of_narrower? (h : narrower? legacy x y = some r) :
    r.Fits legacy x ∧ r.Fits legacy y ↔ ¬r.IsHeldBlock legacy := by
  rw [← Item.fits_self_iff_not_isHeldBlock]
  rcases eq_of_narrower? h with ⟨rfl, fits⟩ | ⟨rfl, fits⟩
  · exact and_iff_left fits
  · exact and_iff_right fits

theorem isAnything_of_narrower? (h : narrower? legacy x y = some r)
    (any : r.isAnything = true) : x.isAnything = true := by
  rcases narrower?_eq_some_iff.mp h with ⟨rfl, -⟩ | ⟨rfl, -, apart⟩
  · exact any
  · exact absurd (Item.fits_of_isAnything (.inr any)) apart

theorem mem_intersection_iff {a b : Selector} : r ∈ (a.intersection legacy b).types ↔
    ∃ x ∈ a.types, ∃ y ∈ b.types, narrower? legacy x y = some r := by
  simp only [intersection, ofItems, ofSelection, List.mem_flatMap, List.mem_filterMap]

theorem types_intersection_everything (legacy : Bool) (a : Selector) :
    (a.intersection legacy .everything).types = a.types := by
  have first : ∀ x : Item, narrower? legacy x .anything = some x := fun x =>
    narrower?_eq_some_iff.mpr (.inl ⟨rfl, Item.fits_of_isAnything (.inr rfl)⟩)
  have kept : ∀ x : Item, [Item.anything].filterMap (narrower? legacy x) = [x] := by
    intro x
    rw [List.filterMap_cons_some (first x), List.filterMap_nil]
  show a.types.flatMap (fun x => [Item.anything].filterMap (narrower? legacy x)) = a.types
  simp only [kept, List.flatMap_singleton']

/-- Two variants have a share exactly if one of them covers the other.  The share is the covered
one, and matches both unless it is a held item that asks for block states. -/
theorem intersection_keeps (legacy : Bool) (a b : Selector) :
    (∀ r, r ∈ (a.intersection legacy b).types ↔
      ∃ x ∈ a.types, ∃ y ∈ b.types, narrower? legacy x y = some r) ∧
    (∀ x ∈ a.types, ∀ y ∈ b.types,
      ((∃ r, narrower? legacy x y = some r) ↔ x.Fits legacy y ∨ y.Fits legacy x) ∧
      ∀ r, narrower? legacy x y = some r →
        (r = x ∧ r.Fits legacy y ∨ r = y ∧ r.Fits legacy x) ∧
        (r.Fits legacy x ∧ r.Fits legacy y ↔ ¬r.IsHeldBlock legacy) ∧
        (r.isAnything = true → x.isAnything = true)) ∧
    (a.intersection legacy .everything).types = a.types := by
  refine ⟨fun r => mem_intersection_iff, fun x _ y _ => ⟨exists_narrower?_iff, fun r h => ?_⟩,
    types_intersection_everything legacy a⟩
  exact ⟨eq_of_narrower? h, fits_both_iff_of_narrower? h, isAnything_of_narrower? h⟩

theorem intersection_keeps_of_stairs :
    let info : MaterialInfo := ⟨"minecraft:oak_stairs", true, 0⟩
    let stairs : Item := .ofDefinition 0 info [] []
    let north : Item := .ofDefinition 0 info [] [("facing", "north")]
    narrower? false stairs north = some north ∧
      north ∈ ((ofItems [stairs]).intersection false (ofItems [north])).types ∧
      north.Fits false stairs ∧ north.Fits false north := by
  intro info stairs north
  have kept : narrower? false stairs north = some north :=
    narrower?_eq_some_iff.mpr (.inr ⟨rfl, by decide +kernel⟩)
  have stairsMem : stairs ∈ (ofItems [stairs]).types := List.mem_singleton_self stairs
  have northMem : north ∈ (ofItems [north]).types := List.mem_singleton_self north
  obtain ⟨members, pairs, -⟩ := intersection_keeps false (ofItems [stairs]) (ofItems [north])
  obtain ⟨-, shares⟩ := pairs stairs stairsMem north northMem
  obtain ⟨-, both, -⟩ := shares north kept
  exact ⟨kept, (members north).mpr ⟨stairs, stairsMem, north, northMem, kept⟩,
    both.mpr (by decide +kernel)⟩

theorem intersection_keeps_unmatched :
    let info : MaterialInfo := ⟨"minecraft:oak_stairs", true, 0⟩
    let stairs : Item := .ofDefinition 0 info [] []
    let held : Item := (Item.ofDefinition 0 info [] [("facing", "north")]).setItemForm true
    (((ofItems [held]).intersection false (ofItems [stairs])).types = [held] ∧
      ¬held.Fits false held) ∧
    (everything.intersection false (ofItems [stairs])).types = [.anything] ∧
      stairs.isAnything = false := by
  intro info stairs held
  have first : narrower? false held stairs = some held :=
    narrower?_eq_some_iff.mpr (.inl ⟨rfl, by decide +kernel⟩)
  have wildcard : narrower? false .anything stairs = some .anything :=
    narrower?_eq_some_iff.mpr (.inl ⟨rfl, by decide +kernel⟩)
  refine ⟨⟨?_, by decide +kernel⟩, ?_, rfl⟩
  · show [held].flatMap (fun x => [stairs].filterMap (narrower? false x)) = [held]
    simp [first]
  · show [Item.anything].flatMap (fun x => [stairs].filterMap (narrower? false x)) = [.anything]
    simp [wildcard]

end Selector

end ItemLexicon
