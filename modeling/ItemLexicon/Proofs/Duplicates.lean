import ItemLexicon.Proofs.DefinedItem

/-! Exact duplicates as patterns.  They can differ in which durability and which tags were written
down, and a pattern asks for what was written down. -/

namespace ItemLexicon.Item

/-- The quality turns on whether the durability of the pattern was given: it differs from that of
the subject, nothing is decided earlier, and the metadata does not cost as much anyway. -/
def DurabilityDecides (legacy : Bool) (subject pattern : Item) : Prop :=
  subject.material = pattern.material ∧ subject.durability ≠ pattern.durability ∧
    (if legacy then subject.isUnflagged = true
      else ¬(subject.itemForm = true ∧ pattern.wantsStates = true)) ∧
    ¬(pattern.tagsGiven = true ∧
      Metadata.compare legacy subject.metadata pattern.metadata = .sameMaterial)

section Pattern

variable {legacy : Bool} {s a b : Item} {q m : Quality}

theorem decided?_congr_right (hm : a.material = b.material) (hd : a.durability = b.durability)
    (hb : a.block = b.block) : decided? legacy s a = decided? legacy s b := by
  rw [decided?, decided?, isAnything, isAnything, isAnything, hm, hd, hb]

theorem compareBody_of_durability_ne (h : s.durability ≠ a.durability) :
    compareBody s a = if a.durabilityGiven then .sameMaterial else .sameItem := by
  simp [compareBody, h]

theorem withMetadata_sameItem_eq_iff :
    withMetadata a .sameItem m = .sameMaterial ↔ a.tagsGiven = true ∧ m = .sameMaterial := by
  rw [withMetadata]
  cases a.tagsGiven <;> cases m <;> simp [Quality.worst, Quality.isBetter, Quality.rank]

theorem not_durabilityDecides_of_eq (h : s.durability = a.durability) :
    ¬s.DurabilityDecides legacy a := fun decides => decides.2.1 h

end Pattern

namespace IsDefined

variable {m m' : Nat} {info info' : MaterialInfo} {a b : Item} {legacy : Bool}

theorem tagsGiven_of_compare (ha : IsDefined m info a) {n : Metadata}
    (h : Metadata.compare legacy n a.metadata = .sameMaterial) : a.tagsGiven = true := by
  cases ht : a.tagsGiven with
  | true => rfl
  | false =>
    have close := Metadata.rank_compare_empty_le_one legacy n
    rw [← ha.metadata_eq_empty ht, h] at close
    exact absurd close (by decide)

theorem withMetadata_congr_right (ha : IsDefined m info a) (hb : IsDefined m' info' b)
    (h : a.Agrees b) (n : Metadata) (q : Quality) :
    withMetadata a q (Metadata.compare legacy n a.metadata) =
      withMetadata b q (Metadata.compare legacy n b.metadata) := by
  have same := Metadata.compare_congr_right legacy n h.metadata
  by_cases hm : Metadata.compare legacy n a.metadata = .sameMaterial
  · have hm' := same.symm.trans hm
    rw [hm, hm', withMetadata, withMetadata, ha.tagsGiven_of_compare hm,
      hb.tagsGiven_of_compare hm']
  · have hm' : Metadata.compare legacy n b.metadata ≠ .sameMaterial := by rwa [← same]
    rw [withMetadata_of_ne hm, withMetadata_of_ne hm', same]

theorem durabilityDecides_congr_right (ha : IsDefined m info a) (hb : IsDefined m' info' b)
    (h : a.Agrees b) (s : Item) : s.DurabilityDecides legacy a ↔ s.DurabilityDecides legacy b := by
  have same := Metadata.compare_congr_right legacy s.metadata h.metadata
  have tags : (a.tagsGiven = true ∧
      Metadata.compare legacy s.metadata a.metadata = .sameMaterial) ↔
      (b.tagsGiven = true ∧ Metadata.compare legacy s.metadata b.metadata = .sameMaterial) := by
    constructor
    · intro hm
      have hm' := same.symm.trans hm.2
      exact ⟨hb.tagsGiven_of_compare hm', hm'⟩
    · intro hm
      have hm' := same.trans hm.2
      exact ⟨ha.tagsGiven_of_compare hm', hm'⟩
  rw [DurabilityDecides, DurabilityDecides, h.material, h.durability, wantsStates, wantsStates,
    ha.block_eq_of_agrees hb h, tags]

theorem compare_congr_right (ha : IsDefined m info a) (hb : IsDefined m' info' b)
    (h : a.Agrees b) {s : Item}
    (hg : a.durabilityGiven = b.durabilityGiven ∨ s.durability = a.durability) :
    s.compare legacy a = s.compare legacy b := by
  have block := ha.block_eq_of_agrees hb h
  have decided : decided? legacy s a = decided? legacy s b :=
    decided?_congr_right h.material h.durability block
  have body : compareBody s a = compareBody s b := by
    rw [compareBody, compareBody, compareBlocks, compareBlocks, block, h.durability]
    rcases hg with hg | hd
    · rw [hg]
    · rw [h.durability] at hd
      simp [hd]
  simp only [Item.compare, decided, body, ha.withMetadata_congr_right hb h]

theorem durabilityDecides_iff (hb : IsDefined m info b) {s : Item}
    (hd : s.durability ≠ b.durability) : s.DurabilityDecides legacy b ↔
      decided? legacy s b = none ∧ ¬(b.tagsGiven = true ∧
        Metadata.compare legacy s.metadata b.metadata = .sameMaterial) := by
  constructor
  · rintro ⟨hm, -, hf, hn⟩
    have subject := isAnything_eq_false_iff.mpr ⟨_, hm.trans hb.material⟩
    refine ⟨?_, hn⟩
    rw [decided?_eq_none_iff subject hb.isAnything]
    refine ⟨hm, ?_⟩
    cases legacy with
    | false => exact hf
    | true => exact .inl hf
  · rintro ⟨hq, hn⟩
    rw [decided?_eq_none_iff (isAnything_of_undecided hq) hb.isAnything] at hq
    refine ⟨hq.1, hd, ?_, hn⟩
    cases legacy with
    | false => exact hq.2
    | true => exact hq.2.resolve_right hd

theorem compare_eq_iff_of_given (ha : IsDefined m info a) (hb : IsDefined m' info' b)
    (h : a.Agrees b) (hga : a.durabilityGiven = true) (hgb : b.durabilityGiven = false)
    (s : Item) : s.compare legacy a = s.compare legacy b ↔ ¬s.DurabilityDecides legacy b := by
  by_cases hd : s.durability = a.durability
  · have hd' : s.durability = b.durability := hd.trans h.durability
    exact iff_of_true (ha.compare_congr_right hb h (.inr hd)) (not_durabilityDecides_of_eq hd')
  · have hd' : s.durability ≠ b.durability := by rwa [← h.durability]
    have decided : decided? legacy s a = decided? legacy s b :=
      decided?_congr_right h.material h.durability (ha.block_eq_of_agrees hb h)
    rw [hb.durabilityDecides_iff hd']
    cases hq : decided? legacy s b with
    | some q =>
      rw [compare_of_decided hq, compare_of_decided (decided.trans hq)]
      simp
    | none =>
      have given : s.compare legacy a = .sameMaterial := by
        rw [compare_of_undecided (decided.trans hq), compareBody_of_durability_ne hd, hga]
        rfl
      have open' : s.compare legacy b = withMetadata b .sameItem
          (Metadata.compare legacy s.metadata b.metadata) := by
        rw [compare_of_undecided hq, compareBody_of_durability_ne hd', hgb]
        rfl
      rw [given, open', eq_comm, withMetadata_sameItem_eq_iff]
      simp

/-- Exact duplicates are told apart as patterns by the subjects for which a durability decides that
only one of the two gives, and by no others. -/
theorem compare_eq_compare_iff (ha : IsDefined m info a) (hb : IsDefined m' info' b)
    (h : a.compare legacy b = .exact) (s : Item) :
    s.compare legacy a = s.compare legacy b ↔
      a.durabilityGiven = b.durabilityGiven ∨ ¬s.DurabilityDecides legacy a := by
  rw [ha.compare_eq_exact_iff hb] at h
  cases hga : a.durabilityGiven <;> cases hgb : b.durabilityGiven
  · exact iff_of_true (ha.compare_congr_right hb h (.inl (hga.trans hgb.symm))) (.inl rfl)
  · rw [eq_comm, hb.compare_eq_iff_of_given ha h.symm hgb hga]
    simp
  · rw [ha.compare_eq_iff_of_given hb h hga hgb, ha.durabilityDecides_congr_right hb h]
    simp
  · exact iff_of_true (ha.compare_congr_right hb h (.inl (hga.trans hgb.symm))) (.inl rfl)

theorem compare_eq_compare_iff_of_sword :
    let sword : MaterialInfo := ⟨"minecraft:diamond_sword", false, 1561⟩
    let plain := Item.ofDefinition 0 sword [] []
    let zero := Item.ofDefinition 0 sword [("Damage", .int 0)] []
    let worn := Item.ofDefinition 0 sword [("Damage", .int 10)] []
    plain.IsDefined 0 sword ∧ zero.IsDefined 0 sword ∧ plain.compare false zero = .exact ∧
      (worn.compare false plain = worn.compare false zero ↔
        plain.durabilityGiven = zero.durabilityGiven ∨ ¬worn.DurabilityDecides false plain) := by
  intro sword plain zero worn
  have exact : plain.compare false zero = .exact := by decide
  exact ⟨.ofDefinition .., .ofDefinition .., exact,
    compare_eq_compare_iff (.ofDefinition ..) (.ofDefinition ..) exact worn⟩

theorem exact_duplicates_told_apart :
    let sword : MaterialInfo := ⟨"minecraft:diamond_sword", false, 1561⟩
    let plain := Item.ofDefinition 0 sword [] []
    let zero := Item.ofDefinition 0 sword [("Damage", .int 0)] []
    let worn := Item.ofDefinition 0 sword [("Damage", .int 10)] []
    plain.compare false zero = .exact ∧ zero.compare false plain = .exact ∧
      worn.compare false plain = .sameItem ∧ worn.compare false zero = .sameMaterial := by
  decide

end IsDefined

end ItemLexicon.Item
