import ItemLexicon.Match.Item
import ItemLexicon.Proofs.MetadataMatch

namespace ItemLexicon

theorem BlockValues.compare_eq_exact_iff (b c : BlockValues) :
    b.compare c = .exact ↔ b.states = c.states := by
  rw [compare]
  by_cases h : b.states = c.states
  · simp [h]
  · cases b.covers c <;> simp [h]

namespace Item

theorem isAnything_eq_false_iff {i : Item} : i.isAnything = false ↔ ∃ m, i.material = some m := by
  rw [isAnything, Option.isNone_eq_false_iff, Option.isSome_iff_exists]

/-- The data that matching compares is equal.  Flags, and the forms an item can take, are left
out. -/
structure Agrees (i j : Item) : Prop where
  material : i.material = j.material
  durability : i.durability = j.durability
  states : i.block.map BlockValues.states = j.block.map BlockValues.states
  metadata : i.metadata.Agrees j.metadata

namespace Agrees

variable {i j k : Item}

theorem refl (i : Item) : i.Agrees i := ⟨rfl, rfl, rfl, .refl _⟩

theorem symm (h : i.Agrees j) : j.Agrees i :=
  ⟨h.material.symm, h.durability.symm, h.states.symm, h.metadata.symm⟩

theorem trans (h : i.Agrees j) (h' : j.Agrees k) : i.Agrees k :=
  ⟨h.material.trans h'.material, h.durability.trans h'.durability, h.states.trans h'.states,
    h.metadata.trans h'.metadata⟩

end Agrees

section Compare

variable {legacy : Bool} {subject pattern : Item}

/-- A pattern with block states of its own, which a held item cannot have. -/
def wantsStates (pattern : Item) : Bool := pattern.block.any (!·.isDefault)

theorem decided?_eq_none_iff (hs : subject.isAnything = false) (hp : pattern.isAnything = false) :
    decided? legacy subject pattern = none ↔ subject.material = pattern.material ∧
      if legacy then subject.isUnflagged = true ∨ subject.durability = pattern.durability
      else ¬(subject.itemForm = true ∧ pattern.wantsStates = true) := by
  rw [decided?, hs, hp, wantsStates]
  by_cases hm : subject.material = pattern.material
  · cases legacy
    · simp [hm]
    · by_cases hd : subject.durability = pattern.durability <;> simp [hm, hd]
  · simp [hm]

theorem isAnything_of_undecided (h : decided? legacy subject pattern = none) :
    subject.isAnything = false := by
  cases hs : subject.isAnything with
  | false => rfl
  | true =>
    rw [decided?, hs, Bool.true_or, if_pos rfl] at h
    cases h

theorem decided?_ne_exact (hs : subject.isAnything = false) (hp : pattern.isAnything = false) :
    decided? legacy subject pattern ≠ some .exact := by
  rw [decided?, hs, hp]
  simp only [Bool.or_self, Bool.false_eq_true, if_false]
  repeat' split
  all_goals simp

theorem decided?_ne_sameItem : decided? legacy subject pattern ≠ some .sameItem := by
  rw [decided?]
  repeat' split
  all_goals simp

theorem compare_of_decided {q : Quality} (h : decided? legacy subject pattern = some q) :
    subject.compare legacy pattern = q := by
  rw [compare, h]

theorem compare_of_undecided (h : decided? legacy subject pattern = none) :
    subject.compare legacy pattern =
      if (compareBody subject pattern).isAtLeast .sameItem then
        withMetadata pattern (compareBody subject pattern)
          (Metadata.compare legacy subject.metadata pattern.metadata)
      else compareBody subject pattern := by
  rw [compare, h]

theorem compareBlocks_eq_exact_iff : compareBlocks subject pattern = .exact ↔
    subject.block.map BlockValues.states = pattern.block.map BlockValues.states := by
  rw [compareBlocks]
  cases subject.block <;> cases pattern.block <;> simp [BlockValues.compare_eq_exact_iff]

theorem compareBody_eq_exact_iff : compareBody subject pattern = .exact ↔
    subject.durability = pattern.durability ∧
      subject.block.map BlockValues.states = pattern.block.map BlockValues.states := by
  rw [compareBody, ← compareBlocks_eq_exact_iff]
  by_cases hd : subject.durability = pattern.durability
  · simp [hd]
  · cases pattern.durabilityGiven <;> simp [hd]

theorem rank_compareBody_le_two : (compareBody subject pattern).rank ≤ 2 := by
  rw [compareBody, compareBlocks]
  simp only [BlockValues.compare]
  repeat' split
  all_goals decide

theorem withMetadata_of_ne {q m : Quality} (h : m ≠ .sameMaterial) :
    withMetadata pattern q m = q.worst m := by
  simp [withMetadata, h]

theorem withMetadata_eq_exact_iff {q m : Quality} :
    withMetadata pattern q m = .exact ↔ q = .exact ∧ m = .exact := by
  rw [withMetadata, ← Quality.worst_eq_exact_iff]
  by_cases h : m = .sameMaterial
  · cases pattern.tagsGiven <;> cases q <;> simp [h, Quality.worst, Quality.isBetter, Quality.rank]
  · simp [h]

theorem decided?_eq_none_of_agrees (hs : subject.isAnything = false)
    (hp : pattern.isAnything = false) (h : subject.Agrees pattern)
    (hw : ¬(legacy = false ∧ subject.itemForm = true ∧ pattern.wantsStates = true)) :
    decided? legacy subject pattern = none := by
  rw [decided?_eq_none_iff hs hp]
  refine ⟨h.material, ?_⟩
  cases legacy with
  | false => simpa using hw
  | true => exact .inr h.durability

theorem compare_eq_exact_iff_of_undecided (h : decided? legacy subject pattern = none) :
    subject.compare legacy pattern = .exact ↔ compareBody subject pattern = .exact ∧
      Metadata.compare legacy subject.metadata pattern.metadata = .exact := by
  rw [compare_of_undecided h]
  split
  · exact withMetadata_eq_exact_iff
  · rename_i hq
    constructor
    · intro he
      rw [he] at hq
      exact absurd rfl hq
    · rintro ⟨he, -⟩
      exact he

theorem compare_eq_exact_iff (hs : subject.isAnything = false) (hp : pattern.isAnything = false) :
    subject.compare legacy pattern = .exact ↔ subject.Agrees pattern ∧
      ¬(legacy = false ∧ subject.itemForm = true ∧ pattern.wantsStates = true) := by
  cases hd : decided? legacy subject pattern with
  | some q =>
    rw [compare_of_decided hd]
    constructor
    · intro h
      rw [h] at hd
      exact absurd hd (decided?_ne_exact hs hp)
    · rintro ⟨h, hw⟩
      rw [decided?_eq_none_of_agrees hs hp h hw] at hd
      cases hd
  | none =>
    rw [compare_eq_exact_iff_of_undecided hd, compareBody_eq_exact_iff,
      Metadata.compare_eq_exact_iff]
    rw [decided?_eq_none_iff hs hp] at hd
    obtain ⟨hm, hw⟩ := hd
    constructor
    · rintro ⟨⟨durability, states⟩, metadata⟩
      refine ⟨⟨hm, durability, states, metadata⟩, ?_⟩
      rintro ⟨hl, hw'⟩
      rw [hl] at hw
      exact hw hw'
    · rintro ⟨h, -⟩
      exact ⟨⟨h.durability, h.states⟩, h.metadata⟩

theorem map_states_eq_iff {b c : Option BlockValues} :
    b.map BlockValues.states = c.map BlockValues.states ↔
      (∃ ours theirs, b = some ours ∧ c = some theirs ∧ ours.states = theirs.states) ∨
        (b = none ∧ c = none) := by
  cases b <;> cases c <;> simp

theorem wantsStates_iff : pattern.wantsStates = true ↔
    ∃ b, pattern.block = some b ∧ b.isDefault = false := by
  rw [wantsStates, Option.any_eq_true]
  simp only [Bool.not_eq_true']

/-- An exact match is equality of all that is compared.  On platforms with block states a held item
is kept from it where the pattern asks for some. -/
theorem compare_exact_iff_equal_data (platform : Platform) {subject pattern : Item}
    (hs : subject.isAnything = false) (hp : pattern.isAnything = false)
    (tags : subject.metadata.extra.Sorted) (tags' : pattern.metadata.extra.Sorted) :
    subject.compare platform.legacy pattern = .exact ↔
      subject.material = pattern.material ∧ subject.durability = pattern.durability ∧
        subject.metadata.same pattern.metadata = true ∧
        ((∃ ours theirs, subject.block = some ours ∧ pattern.block = some theirs ∧
            ours.states = theirs.states) ∨
          (subject.block = none ∧ pattern.block = none)) ∧
        ¬(platform.legacy = false ∧ subject.itemForm = true ∧
          ∃ b, pattern.block = some b ∧ b.isDefault = false) := by
  rw [compare_eq_exact_iff hs hp, ← map_states_eq_iff, ← wantsStates_iff,
    ← Metadata.Agrees.iff_same tags tags']
  constructor
  · rintro ⟨⟨material, durability, states, metadata⟩, wanted⟩
    exact ⟨material, durability, metadata, states, wanted⟩
  · rintro ⟨material, durability, metadata, states, wanted⟩
    exact ⟨⟨material, durability, states, metadata⟩, wanted⟩

theorem compare_exact_of_tinted_block :
    let info : MaterialInfo := ⟨"minecraft:oak_stairs", true, 0⟩
    let p : Platform := ⟨⟨[1, 20, 4]⟩, false, [info], []⟩
    let held : Item := .ofStack 0 info 3 [("Tint", .float (.zero true))]
    let defined : Item :=
      .ofDefinition 0 info [("Damage", .int 3), ("Tint", .float (.zero false))] []
    held.isAnything = false ∧ defined.isAnything = false ∧ held.metadata.extra.Sorted ∧
      defined.metadata.extra.Sorted ∧ held.compare p.legacy defined = .exact := by
  intro info p held defined
  have tags : held.metadata.extra.Sorted := by decide
  have tags' : defined.metadata.extra.Sorted := by decide
  refine ⟨rfl, rfl, tags, tags', ?_⟩
  rw [compare_exact_iff_equal_data p rfl rfl tags tags']
  refine ⟨rfl, rfl, by decide, .inl ⟨_, _, rfl, rfl, rfl⟩, ?_⟩
  rintro ⟨-, -, b, hb, wanted⟩
  cases hb
  cases wanted

end Compare

end Item

end ItemLexicon
