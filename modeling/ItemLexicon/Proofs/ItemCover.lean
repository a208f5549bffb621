import ItemLexicon.Proofs.DefinedItem
import ItemLexicon.Proofs.MetadataCover

/-! Coverage of items is decided part by part, and each part by itself passes through items in
between; what breaks a chain is that one part can hide another. -/

namespace ItemLexicon

namespace BlockValues

theorem rank_compare_le_one_iff {b c : BlockValues} :
    (b.compare c).rank ≤ 1 ↔ b.states = c.states ∨ b.covers c = true := by
  rw [compare]
  by_cases same : b.states = c.states
  · simp [same]
  · cases b.covers c <;> simp [same, Quality.rank]

theorem covers_trans {b c d : BlockValues} (h : b.covers c = true) (h' : c.covers d = true) :
    b.covers d = true := by
  rw [covers, List.all_eq_true] at h h' ⊢
  intro s hs
  exact h s (Dictionary.mem_of_get? (eq_of_beq (h' s hs)))

theorem rank_compare_trans {b c d : BlockValues} (h : (b.compare c).rank ≤ 1)
    (h' : (c.compare d).rank ≤ 1) : (b.compare d).rank ≤ 1 := by
  rw [rank_compare_le_one_iff] at h h' ⊢
  rcases h with same | covered
  · rwa [same, covers, same]
  · rcases h' with same' | covered'
    · rw [covers, same'] at covered
      exact .inr covered
    · exact .inr (covers_trans covered covered')

end BlockValues

namespace Item

variable {legacy : Bool} {s t : Item}

/-- The subject is at least the same item as the pattern. -/
def Fits (legacy : Bool) (s t : Item) : Prop := (s.compare legacy t).isAtLeast .sameItem = true

structure Meets (legacy : Bool) (s t : Item) : Prop where
  material : s.material = t.material
  held : legacy = false → s.itemForm = true → t.wantsStates = false
  flagged : legacy = true → s.durability ≠ t.durability → s.isUnflagged = true
  durability : s.durability ≠ t.durability → t.durabilityGiven = false
  states : s.durability = t.durability → (compareBlocks s t).rank ≤ 1
  metadata : (Metadata.compare legacy s.metadata t.metadata).rank ≤ if t.tagsGiven then 1 else 2

theorem rank_withMetadata_le_one {q m : Quality} (h : q.rank ≤ 1) :
    (withMetadata t q m).rank ≤ 1 ↔ m.rank ≤ if t.tagsGiven then 1 else 2 := by
  rw [withMetadata]
  cases t.tagsGiven <;> cases q <;> cases m <;>
    simp_all [Quality.rank, Quality.worst, Quality.isBetter]

theorem rank_compareBody_le_one : (compareBody s t).rank ≤ 1 ↔
    (s.durability ≠ t.durability → t.durabilityGiven = false) ∧
      (s.durability = t.durability → (compareBlocks s t).rank ≤ 1) := by
  rw [compareBody]
  by_cases same : s.durability = t.durability
  · simp [same]
  · cases t.durabilityGiven <;> simp [same, Quality.rank]

theorem undecided_iff (hs : s.isAnything = false) (ht : t.isAnything = false) :
    decided? legacy s t = none ↔ s.material = t.material ∧
      (legacy = false → s.itemForm = true → t.wantsStates = false) ∧
      (legacy = true → s.durability ≠ t.durability → s.isUnflagged = true) := by
  rw [decided?_eq_none_iff hs ht]
  apply and_congr_right
  intro _
  cases legacy with
  | false => simp
  | true => by_cases same : s.durability = t.durability <;> simp [same]

theorem fits_iff_meets (hs : s.isAnything = false) (ht : t.isAnything = false) :
    s.Fits legacy t ↔ s.Meets legacy t := by
  rw [Fits, Quality.isAtLeast_iff]
  cases hd : decided? legacy s t with
  | some q =>
    rw [compare_of_decided hd]
    constructor
    · intro close
      cases q with
      | exact => exact absurd hd (decided?_ne_exact hs ht)
      | sameItem => exact absurd hd decided?_ne_sameItem
      | sameMaterial => exact absurd close (by decide)
      | different => exact absurd close (by decide)
    · intro h
      rw [(undecided_iff hs ht).mpr ⟨h.material, h.held, h.flagged⟩] at hd
      cases hd
  | none =>
    obtain ⟨material, held, flagged⟩ := (undecided_iff hs ht).mp hd
    rw [compare_of_undecided hd]
    split
    · rename_i close
      have body := Quality.isAtLeast_iff.mp close
      obtain ⟨durability, states⟩ := rank_compareBody_le_one.mp body
      refine (rank_withMetadata_le_one body).trans ⟨?_, Meets.metadata⟩
      exact fun metadata => ⟨material, held, flagged, durability, states, metadata⟩
    · rename_i far
      rw [Quality.isAtLeast_iff] at far
      exact iff_of_false far fun h =>
        far (rank_compareBody_le_one.mpr ⟨h.durability, h.states⟩)

theorem rank_compareBlocks_trans {s t u : Item} (h : (compareBlocks s t).rank ≤ 1)
    (h' : (compareBlocks t u).rank ≤ 1) : (compareBlocks s u).rank ≤ 1 := by
  revert h h'
  simp only [compareBlocks]
  cases s.block <;> cases t.block <;> cases u.block
  case none.none.none => exact fun h _ => h
  case some.some.some => exact BlockValues.rank_compare_trans
  all_goals simp [Quality.rank]

theorem compareBlocks_self (i : Item) : compareBlocks i i = .exact :=
  compareBlocks_eq_exact_iff.mpr rfl

theorem fits_self_iff (hs : s.isAnything = false) : s.Fits legacy s ↔
    ¬(legacy = false ∧ s.itemForm = true ∧ s.wantsStates = true) := by
  rw [fits_iff_meets hs hs]
  constructor
  · rintro h ⟨values, held, wants⟩
    rw [h.held values held] at wants
    cases wants
  · intro free
    refine ⟨rfl, ?_, fun _ differs => absurd rfl differs, fun differs => absurd rfl differs, ?_, ?_⟩
    · intro values held
      exact Bool.eq_false_iff.mpr fun wants => free ⟨values, held, wants⟩
    · intro _
      rw [compareBlocks_self]
      exact Nat.zero_le 1
    · rw [Metadata.compare_self]
      exact Nat.zero_le _

/-- What keeps the first of three items from fitting the last one, though each fits the next. -/
inductive Gap (legacy : Bool) (s t u : Item) : Prop
  | held (values : legacy = false) (held : s.itemForm = true) (wants : u.wantsStates = true)
  | durability (differs : s.durability ≠ u.durability)
    (given : u.durabilityGiven = true ∨ legacy = true ∧ s.isUnflagged = false)
  | states (same : s.durability = u.durability) (between : s.durability ≠ t.durability)
    (differ : 2 ≤ (compareBlocks s u).rank)
  | tags (given : u.tagsGiven = true) (between : t.tagsGiven = false)
    (differ : 2 ≤ (Metadata.compare legacy s.metadata u.metadata).rank)

namespace Meets

variable {s t u : Item}

theorem rank_metadata_le_two (h : s.Meets legacy t) :
    (Metadata.compare legacy s.metadata t.metadata).rank ≤ 2 := by
  refine h.metadata.trans ?_
  split <;> decide

theorem trans_iff (h : s.Meets legacy t) (h' : t.Meets legacy u) :
    s.Meets legacy u ↔ ¬ Gap legacy s t u := by
  constructor
  · rintro whole (⟨values, held, wants⟩ | ⟨differs, given⟩ | ⟨same, -, differ⟩ | ⟨given, -, differ⟩)
    · rw [whole.held values held] at wants
      cases wants
    · rcases given with given | ⟨values, flagged⟩
      · rw [whole.durability differs] at given
        cases given
      · rw [whole.flagged values differs] at flagged
        cases flagged
    · exact absurd (whole.states same) (Nat.not_le.mpr differ)
    · have close := whole.metadata
      rw [given, if_pos rfl] at close
      exact absurd close (Nat.not_le.mpr differ)
  · intro closed
    refine ⟨h.material.trans h'.material, ?_, ?_, ?_, ?_, ?_⟩
    · intro values held
      exact Bool.eq_false_iff.mpr fun wants => closed (.held values held wants)
    · intro values differs
      by_contra flagged
      exact closed (.durability differs (.inr ⟨values, Bool.eq_false_iff.mpr flagged⟩))
    · intro differs
      exact Bool.eq_false_iff.mpr fun given => closed (.durability differs (.inl given))
    · intro same
      by_cases between : s.durability = t.durability
      · exact rank_compareBlocks_trans (h.states between) (h'.states (between.symm.trans same))
      · by_contra differ
        exact closed (.states same between (Nat.not_le.mp differ))
    · split
      · rename_i given
        cases open' : t.tagsGiven with
        | true =>
          have close := h.metadata
          have close' := h'.metadata
          rw [open', if_pos rfl] at close
          rw [given, if_pos rfl] at close'
          exact Metadata.rank_compare_trans close close'
        | false =>
          by_contra differ
          exact closed (.tags given open' (Nat.not_le.mp differ))
      · exact Metadata.rank_compare_trans h.rank_metadata_le_two h'.rank_metadata_le_two

end Meets

theorem fits_trans_iff {s t u : Item} (hs : s.isAnything = false) (ht : t.isAnything = false)
    (hu : u.isAnything = false) (h : s.Fits legacy t) (h' : t.Fits legacy u) :
    s.Fits legacy u ↔ ¬ Gap legacy s t u := by
  rw [fits_iff_meets hs ht] at h
  rw [fits_iff_meets ht hu] at h'
  rw [fits_iff_meets hs hu, h.trans_iff h']

/-- What an item has is marked as given. -/
structure IsMarked (i : Item) : Prop where
  durability : i.durabilityGiven = false → i.durability = 0
  metadata : i.tagsGiven = false → i.metadata = .empty

theorem IsDefined.isMarked {m : Nat} {info : MaterialInfo} {i : Item} (h : IsDefined m info i) :
    i.IsMarked := ⟨h.durability_eq_zero, h.metadata_eq_empty⟩

namespace IsMarked

variable {s t u : Item}

theorem durability_eq_zero_of_meets (ht : t.IsMarked) (h : s.Meets legacy t)
    (differs : s.durability ≠ t.durability) : t.durability = 0 :=
  ht.durability (h.durability differs)

theorem durability_eq_of_legacy (hs : s.IsMarked) (ht : t.IsMarked) (h : s.Meets true t) :
    s.durability = t.durability := by
  by_contra differs
  have flagged := h.flagged rfl differs
  rw [isUnflagged, Bool.and_eq_true, Bool.not_eq_true'] at flagged
  exact differs ((hs.durability flagged.1).trans (ht.durability_eq_zero_of_meets h differs).symm)

theorem rank_metadata_le_one (ht : t.IsMarked) (h' : t.Meets legacy u)
    (given : u.tagsGiven = true) (between : t.tagsGiven = false) :
    (Metadata.compare legacy s.metadata u.metadata).rank ≤ 1 := by
  have close := h'.metadata
  rw [given, if_pos rfl, ht.metadata between] at close
  rw [← Metadata.compare_congr_right legacy s.metadata
    (Metadata.agrees_of_rank_compare_empty_le_one close)]
  exact Metadata.rank_compare_empty_le_one legacy s.metadata

theorem gap_iff (hs : s.IsMarked) (ht : t.IsMarked) (hu : u.IsMarked) (h : s.Meets legacy t)
    (h' : t.Meets legacy u) : Gap legacy s t u ↔ legacy = false ∧
      (s.itemForm = true ∧ u.wantsStates = true ∨
        s.durability ≠ u.durability ∧ u.durabilityGiven = true) := by
  constructor
  · rintro (⟨values, held, wants⟩ | ⟨differs, given⟩ | ⟨same, between, -⟩ | ⟨given, between, differ⟩)
    · exact ⟨values, .inl ⟨held, wants⟩⟩
    · cases legacy with
      | false => exact ⟨rfl, .inr ⟨differs, by simpa using given⟩⟩
      | true =>
        have whole := (durability_eq_of_legacy hs ht h).trans (durability_eq_of_legacy ht hu h')
        exact absurd whole differs
    · have middle := ht.durability_eq_zero_of_meets h between
      have last := hu.durability_eq_zero_of_meets h' fun same' => between (same.trans same'.symm)
      exact absurd (same.trans (last.trans middle.symm)) between
    · exact absurd (ht.rank_metadata_le_one h' given between) (Nat.not_le.mpr differ)
  · rintro ⟨values, ⟨held, wants⟩ | ⟨differs, given⟩⟩
    · exact .held values held wants
    · exact .durability differs (.inl given)

end IsMarked

end Item

end ItemLexicon
