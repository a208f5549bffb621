import ItemLexicon.Proofs.ItemCover

namespace ItemLexicon

namespace Item

variable {m : Nat} {info : MaterialInfo} {s t : Item}

/-- The items of a material: those of definitions, those held in stacks, and, where the material is
a block, those placed. -/
inductive IsOf (m : Nat) (info : MaterialInfo) : Item → Prop
  | ofDefinition (tags : Tags) (states : States) : IsOf m info (.ofDefinition m info tags states)
  | ofStack (damage : Nat) (tags : Tags) : IsOf m info (.ofStack m info damage tags)
  | ofBlock (placed : info.isBlock = true) (states : States) :
      IsOf m info (.ofBlock m info states)

namespace IsOf

theorem material (h : s.IsOf m info) : s.material = some m := by cases h <;> rfl

theorem isSome_block (h : s.IsOf m info) : s.block.isSome = info.isBlock := by
  cases h with
  | ofDefinition tags states => exact (IsDefined.ofDefinition m info tags states).isSome_block
  | ofStack damage tags => cases hb : info.isBlock <;> simp [Item.ofStack, bare, anything, hb]
  | ofBlock placed states => exact placed.symm

end IsOf

theorem IsDefined.wantsStates_of_isNeutral (ht : IsDefined m info t) (neutral : t.IsNeutral) :
    t.wantsStates = false := by
  rw [wantsStates]
  cases hb : t.block with
  | none => rfl
  | some b => simp [ht.isDefault_eq_isEmpty hb, neutral.states b hb]

theorem IsNeutral.rank_compareBlocks_le_one (neutral : t.IsNeutral)
    (same : s.block.isSome = t.block.isSome) : (compareBlocks s t).rank ≤ 1 := by
  rw [compareBlocks]
  cases hs : s.block with
  | none =>
    cases ht : t.block with
    | none => exact Nat.zero_le 1
    | some c => simp [hs, ht] at same
  | some b =>
    cases ht : t.block with
    | none => simp [hs, ht] at same
    | some c =>
      have covered : b.covers c = true := by simp [BlockValues.covers, neutral.states c ht]
      exact BlockValues.rank_compare_le_one_iff.mpr (.inr covered)

theorem IsOf.fits_iff_of_isNeutral (hs : s.IsOf m info) (ht : IsDefined m info t)
    (neutral : t.IsNeutral) :
    s.Fits false t ↔ t.durabilityGiven = false ∨ s.durability = 0 := by
  rw [fits_iff_meets (isAnything_eq_false_iff.mpr ⟨m, hs.material⟩) ht.isAnything]
  constructor
  · intro meets
    rw [or_iff_not_imp_right, ← neutral.durability]
    exact meets.durability
  · intro free
    refine ⟨hs.material.trans ht.material.symm, ?_, nofun, ?_, ?_, ?_⟩
    · intro _ _
      exact ht.wantsStates_of_isNeutral neutral
    · rw [← or_iff_not_imp_right, neutral.durability]
      exact free
    · intro _
      exact neutral.rank_compareBlocks_le_one (hs.isSome_block.trans ht.isSome_block.symm)
    · rw [neutral.metadata]
      refine (Metadata.rank_compare_empty_le_one false s.metadata).trans ?_
      split <;> decide

theorem isDefault_ofDefinition_nil (m : Nat) (info : MaterialInfo) :
    (ofDefinition m info [] []).isDefault = true := by
  cases h : info.isBlock <;>
    simp [ofDefinition, isDefault, isUnflagged, cutDamage, h, BlockValues.default]

theorem IsOf.fits_iff_of_duplicate {legacy : Bool} (hs : s.IsOf m info) (ht : IsDefined m info t)
    (duplicate : (Item.ofDefinition m info [] []).compare legacy t = .exact) :
    s.Fits false t ↔ t.durabilityGiven = false ∨ s.durability = 0 := by
  have bare := IsDefined.ofDefinition m info [] []
  have neutral := bare.isNeutral (isDefault_ofDefinition_nil m info)
  have agrees := (bare.compare_eq_exact_iff ht).mp duplicate
  exact hs.fits_iff_of_isNeutral ht (neutral.of_agrees agrees.symm)

theorem IsOf.fits_bare (hs : s.IsOf m info) : s.Fits false (.ofDefinition m info [] []) := by
  have defined := IsDefined.ofDefinition m info [] []
  have isDefault := isDefault_ofDefinition_nil m info
  rw [hs.fits_iff_of_isNeutral defined (defined.isNeutral isDefault)]
  exact .inl (IsDefined.durabilityGiven_eq_false isDefault)

end Item

end ItemLexicon
