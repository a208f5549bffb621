import ItemLexicon.Proofs.ItemMatch

namespace ItemLexicon.Item

/-- The item of some definition for a material. -/
def IsDefined (material : Nat) (info : MaterialInfo) (i : Item) : Prop :=
  ∃ tags states, i = ofDefinition material info tags states

namespace IsDefined

variable {m m' : Nat} {info info' : MaterialInfo} {i j : Item} {legacy : Bool}

theorem ofDefinition (m : Nat) (info : MaterialInfo) (tags : Tags) (states : States) :
    IsDefined m info (.ofDefinition m info tags states) := ⟨tags, states, rfl⟩

theorem material (h : IsDefined m info i) : i.material = some m := by
  obtain ⟨tags, states, rfl⟩ := h
  rfl

theorem isAnything (h : IsDefined m info i) : i.isAnything = false :=
  isAnything_eq_false_iff.mpr ⟨m, h.material⟩

theorem itemForm (h : IsDefined m info i) : i.itemForm = false := by
  obtain ⟨tags, states, rfl⟩ := h
  rfl

theorem fromAlias (h : IsDefined m info i) : i.fromAlias = true := by
  obtain ⟨tags, states, rfl⟩ := h
  rfl

theorem durability_eq_zero (h : IsDefined m info i) (hd : i.durabilityGiven = false) :
    i.durability = 0 := by
  obtain ⟨tags, states, rfl⟩ := h
  rw [Item.ofDefinition] at hd ⊢
  cases hc : (cutDamage tags).1 with
  | none => simp [hc]
  | some n => simp [hc] at hd

theorem metadata_eq_empty (h : IsDefined m info i) (ht : i.tagsGiven = false) :
    i.metadata = .empty := by
  obtain ⟨tags, states, rfl⟩ := h
  rw [Item.ofDefinition] at ht ⊢
  simp_all

theorem isSome_block (h : IsDefined m info i) : i.block.isSome = info.isBlock := by
  obtain ⟨tags, states, rfl⟩ := h
  rw [Item.ofDefinition]
  cases info.isBlock <;> simp

theorem isDefault_eq_isEmpty (h : IsDefined m info i) {b : BlockValues} (hb : i.block = some b) :
    b.isDefault = b.states.isEmpty := by
  obtain ⟨tags, states, rfl⟩ := h
  rw [Item.ofDefinition] at hb
  cases hi : info.isBlock <;> cases hs : states.isEmpty <;> simp [hi, hs] at hb
  · rw [← hb]
    simp [BlockValues.explicit, hs]
  · rw [← hb]
    rfl

theorem compare_eq_exact_iff (hi : IsDefined m info i) (hj : IsDefined m' info' j) :
    i.compare legacy j = .exact ↔ i.Agrees j := by
  rw [Item.compare_eq_exact_iff hi.isAnything hj.isAnything, hi.itemForm]
  simp

theorem block_eq_of_agrees (hi : IsDefined m info i) (hj : IsDefined m' info' j)
    (h : i.Agrees j) : i.block = j.block := by
  have hs := h.states
  cases hb : i.block with
  | none =>
    cases hc : j.block with
    | none => rfl
    | some c => simp [hb, hc] at hs
  | some b =>
    cases hc : j.block with
    | none => simp [hb, hc] at hs
    | some c =>
      have states : b.states = c.states := by simpa [hb, hc] using hs
      have isDefault : b.isDefault = c.isDefault := by
        rw [hi.isDefault_eq_isEmpty hb, hj.isDefault_eq_isEmpty hc, states]
      cases b
      cases c
      simp_all

theorem durabilityGiven_eq_false (hd : i.isDefault = true) : i.durabilityGiven = false := by
  simp_all [isDefault, isUnflagged]

theorem tagsGiven_eq_false (hd : i.isDefault = true) : i.tagsGiven = false := by
  simp_all [isDefault, isUnflagged]

theorem states_eq_nil (h : IsDefined m info i) (hd : i.isDefault = true) {b : BlockValues}
    (hb : i.block = some b) : b.states = [] := by
  rw [isDefault, Bool.and_eq_true, hb, Option.all_some, h.isDefault_eq_isEmpty hb,
    List.isEmpty_iff] at hd
  exact hd.2

theorem agrees_of_isDefault (hi : IsDefined m info i) (hj : IsDefined m info j)
    (hdi : i.isDefault = true) (hdj : j.isDefault = true) : i.Agrees j where
  material := hi.material.trans hj.material.symm
  durability := by
    rw [hi.durability_eq_zero (durabilityGiven_eq_false hdi),
      hj.durability_eq_zero (durabilityGiven_eq_false hdj)]
  states := by
    have isSome : i.block.isSome = j.block.isSome := hi.isSome_block.trans hj.isSome_block.symm
    cases hb : i.block with
    | none =>
      cases hc : j.block with
      | none => rfl
      | some c => simp [hb, hc] at isSome
    | some b =>
      cases hc : j.block with
      | none => simp [hb, hc] at isSome
      | some c =>
        rw [Option.map_some, Option.map_some, hi.states_eq_nil hdi hb, hj.states_eq_nil hdj hc]
  metadata := by
    rw [hi.metadata_eq_empty (tagsGiven_eq_false hdi),
      hj.metadata_eq_empty (tagsGiven_eq_false hdj)]
    exact .refl _

theorem wantsStates_eq_false (hd : i.isDefault = true) : i.wantsStates = false := by
  rw [isDefault, Bool.and_eq_true] at hd
  rw [wantsStates]
  cases hb : i.block with
  | none => rfl
  | some b => simpa [hb] using hd.2

theorem rank_compare_le_two_of_undecided (h : IsDefined m info i) (hd : i.isDefault = true)
    {s : Item} (undecided : decided? legacy s i = none) : (s.compare legacy i).rank ≤ 2 := by
  rw [compare_of_undecided undecided, h.metadata_eq_empty (tagsGiven_eq_false hd)]
  split
  · have close := Metadata.rank_compare_empty_le_one legacy s.metadata
    rw [withMetadata_of_ne, Quality.rank_worst, Nat.max_le]
    · exact ⟨rank_compareBody_le_two, close.trans (Nat.le_succ 1)⟩
    · intro hm
      rw [hm] at close
      exact absurd close (by decide)
  · exact rank_compareBody_le_two

theorem rank_compare_le_two (h : IsDefined m info i) (hd : i.isDefault = true) {s : Item}
    (hs : s.material = some m) : (s.compare false i).rank ≤ 2 := by
  apply h.rank_compare_le_two_of_undecided hd
  rw [decided?_eq_none_iff (isAnything_eq_false_iff.mpr ⟨m, hs⟩) h.isAnything,
    wantsStates_eq_false hd]
  simp [hs, h.material]

end IsDefined

/-- The item has no data besides its material, though it may have been written down that there is
none. -/
structure IsNeutral (i : Item) : Prop where
  durability : i.durability = 0
  states : ∀ b ∈ i.block, b.states = []
  metadata : i.metadata = .empty

theorem IsDefined.isNeutral {m : Nat} {info : MaterialInfo} {i : Item} (h : IsDefined m info i)
    (hd : i.isDefault = true) : i.IsNeutral where
  durability := h.durability_eq_zero (IsDefined.durabilityGiven_eq_false hd)
  states _ hb := h.states_eq_nil hd hb
  metadata := h.metadata_eq_empty (IsDefined.tagsGiven_eq_false hd)

namespace IsNeutral

variable {m : Nat} {info : MaterialInfo} {s i j : Item} {legacy : Bool}

theorem of_agrees (hi : i.IsNeutral) (h : s.Agrees i) : s.IsNeutral where
  durability := h.durability.trans hi.durability
  states := by
    intro b hb
    have hs := h.states
    rw [hb, Option.map_some] at hs
    cases hc : i.block with
    | none => simp [hc] at hs
    | some c =>
      rw [hc, Option.map_some, Option.some_inj, hi.states c hc] at hs
      exact hs
  metadata := by
    have hm := h.metadata
    rw [hi.metadata] at hm
    exact hm.eq_empty

theorem compareBlocks_ne_sameItem (hs : s.IsNeutral) (j : Item) :
    compareBlocks s j ≠ .sameItem := by
  rw [compareBlocks]
  cases hb : s.block with
  | none => cases j.block <;> simp
  | some b =>
    cases j.block with
    | none => simp
    | some c =>
      have empty := hs.states b hb
      simp only [BlockValues.compare, BlockValues.covers, empty]
      cases hc : c.states with
      | nil => simp
      | cons s states => simp

theorem compareBody_ne_sameItem (hs : s.IsNeutral) (hj : IsDefined m info j) :
    compareBody s j ≠ .sameItem := by
  rw [compareBody]
  by_cases h : s.durability = j.durability
  · simpa [h] using hs.compareBlocks_ne_sameItem j
  · cases hg : j.durabilityGiven with
    | true => simp [h]
    | false =>
      rw [hs.durability, hj.durability_eq_zero hg] at h
      exact absurd rfl h

theorem withMetadata_ne_sameItem (hs : s.IsNeutral) (hj : IsDefined m info j) :
    withMetadata j .exact (Metadata.compare legacy s.metadata j.metadata) ≠ .sameItem := by
  rw [hs.metadata, withMetadata, Quality.exact_worst]
  cases hg : j.tagsGiven with
  | true =>
    intro h
    -- the empty metadata of the subject leaves no quality between exact and the material
    have close : (Metadata.compare legacy .empty j.metadata).rank ≤ 1 := by
      simp at h
      rw [h]
      rfl
    rw [(Metadata.compare_eq_exact_iff legacy _ _).mpr
      (Metadata.agrees_of_rank_compare_empty_le_one close)] at h
    cases h
  | false =>
    rw [hj.metadata_eq_empty hg, Metadata.compare_self]
    simp

theorem compare_ne_sameItem (hs : s.IsNeutral) (hj : IsDefined m info j) :
    s.compare legacy j ≠ .sameItem := by
  cases hq : decided? legacy s j with
  | some q =>
    rw [compare_of_decided hq]
    intro h
    rw [h] at hq
    exact decided?_ne_sameItem hq
  | none =>
    rw [compare_of_undecided hq]
    have body := hs.compareBody_ne_sameItem hj
    cases hb : compareBody s j with
    | exact => exact hs.withMetadata_ne_sameItem hj
    | sameItem => exact absurd hb body
    | sameMaterial => simp [Quality.isAtLeast, Quality.rank]
    | different => simp [Quality.isAtLeast, Quality.rank]

end IsNeutral

end ItemLexicon.Item
