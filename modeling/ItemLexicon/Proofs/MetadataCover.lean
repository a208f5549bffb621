import ItemLexicon.Proofs.MetadataMatch

namespace ItemLexicon

def MetadataKind.sort? (legacy : Bool) : MetadataKind → Option Nat
  | .plain => none
  | .potion .. => some 0
  | .spawnEgg _ => if legacy then some 1 else none
  | .skull _ => some 2
  | .container _ => some 3

namespace Metadata

variable {legacy : Bool}

theorem rank_grade_trans {equal equal' equal'' first second third : Bool}
    (like : equal = true → first = second) (like' : equal' = true → second = third)
    (trans : equal = true → equal' = true → equal'' = true) {k : Nat}
    (h : (grade equal first second).rank ≤ k) (h' : (grade equal' second third).rank ≤ k) :
    (grade equal'' first third).rank ≤ k := by
  match k with
  | 0 =>
    rw [rank_grade_le_zero] at h h' ⊢
    exact trans h h'
  | 1 =>
    revert equal equal' equal'' first second third
    decide
  | k + 2 => exact rank_grade_le_two.trans (Nat.le_add_left 2 k)

theorem rank_grade_beq_trans {α : Type} [BEq α] [LawfulBEq α] (isSet : α → Bool) {a b c : α}
    {k : Nat} (h : (grade (a == b) (isSet a) (isSet b)).rank ≤ k)
    (h' : (grade (b == c) (isSet b) (isSet c)).rank ≤ k) :
    (grade (a == c) (isSet a) (isSet c)).rank ≤ k := by
  apply rank_grade_trans _ _ _ h h'
  · exact fun eq => congrArg isSet (eq_of_beq eq)
  · exact fun eq => congrArg isSet (eq_of_beq eq)
  · exact fun eq eq' => beq_iff_eq.mpr ((eq_of_beq eq).trans (eq_of_beq eq'))

theorem rank_gradeExtra_trans {first second third : Tags} {key : String} {k : Nat}
    (h : (gradeExtra first second key).rank ≤ k) (h' : (gradeExtra second third key).rank ≤ k) :
    (gradeExtra first third key).rank ≤ k := by
  have like : ∀ {a b : Option Tag}, Tag.sameOption a b = true → a.isSome = b.isSome := by
    intro a b same
    have canonical := congrArg Option.isSome ((Tag.sameOption_iff a b).mp same)
    simpa using canonical
  apply rank_grade_trans like like _ h h'
  simp only [Tag.sameOption_iff]
  exact Eq.trans

theorem rank_compareFields_trans {l m n : Metadata} {k : Nat}
    (h : (compareFields l m).rank ≤ k) (h' : (compareFields m n).rank ≤ k) :
    (compareFields l n).rank ≤ k := by
  rw [rank_compareFields_le] at h h' ⊢
  obtain ⟨extra, displayName, lore, enchantments, hideFlags⟩ := h
  obtain ⟨extra', displayName', lore', enchantments', hideFlags'⟩ := h'
  refine ⟨fun key => rank_gradeExtra_trans (extra key) (extra' key), ?_, ?_, ?_, ?_⟩
  · exact rank_grade_beq_trans Option.isSome displayName displayName'
  · exact rank_grade_beq_trans Option.isSome lore lore'
  · exact rank_grade_beq_trans (fun d : Dictionary Nat => !d.isEmpty) enchantments enchantments'
  · exact rank_grade_beq_trans (fun n : Nat => n != 0) hideFlags hideFlags'

theorem gradeKind_cases {k l : MetadataKind} (h : (gradeKind legacy k l).rank ≤ 1) :
    l = .plain ∨ k.canonical = l.canonical ∨ ∃ items, k = .container items ∧ l = .container [] := by
  rw [← MetadataKind.same_iff]
  rw [gradeKind] at h
  cases l with
  | plain => exact .inl rfl
  | container wanted =>
    cases k with
    | container items =>
      by_cases same : Tag.sameItems items wanted = true
      · exact .inr (.inl same)
      · cases wanted with
        | nil => exact .inr (.inr ⟨items, rfl, rfl⟩)
        | cons => simp [compareKinds, same, Quality.rank] at h
    | _ => cases legacy <;> simp [compareKinds, Quality.rank] at h
  | _ =>
    cases k <;> cases legacy <;>
      simp_all [compareKinds, MetadataKind.same, MetadataKind.isPlain, grade, Quality.rank] <;>
      grind

theorem grade_ne_different {equal ours theirs : Bool} : grade equal ours theirs ≠ .different := by
  revert equal ours theirs
  decide

theorem rank_gradeKind_le_two_iff {k l : MetadataKind} : (gradeKind legacy k l).rank ≤ 2 ↔
    l.sort? legacy = none ∨ k.sort? legacy = l.sort? legacy := by
  rw [← Nat.lt_succ_iff, ← Nat.not_le, ← Quality.eq_different_iff, gradeKind]
  cases l <;> cases k <;> cases legacy <;>
    simp [compareKinds, MetadataKind.sort?, grade_ne_different] <;> grind

theorem rank_gradeKind_container_nil (items : List Tag) :
    (gradeKind legacy (.container items) (.container [])).rank ≤ 1 := by
  cases items <;> simp [gradeKind, compareKinds, Tag.sameItems, Quality.rank]

theorem rank_gradeKind_trans {k l m : MetadataKind} {n : Nat}
    (h : (gradeKind legacy k l).rank ≤ n) (h' : (gradeKind legacy l m).rank ≤ n) :
    (gradeKind legacy k m).rank ≤ n := by
  match n with
  | 0 =>
    rw [rank_gradeKind_le_zero] at h h' ⊢
    exact h.trans h'
  | 1 =>
    rcases gradeKind_cases h' with rfl | same | ⟨items, rfl, rfl⟩
    · exact rank_gradeKind_plain_right legacy k
    · rwa [← gradeKind_congr_right legacy k same]
    · rcases gradeKind_cases h with plain | same | ⟨_, rfl, -⟩
      · cases plain
      · cases k with
        | container => exact rank_gradeKind_container_nil _
        | _ => cases same
      · exact rank_gradeKind_container_nil _
  | 2 =>
    rw [rank_gradeKind_le_two_iff] at h h' ⊢
    rcases h' with free | same
    · exact .inl free
    · rwa [← same]
  | n + 3 => exact (Quality.rank_le_three _).trans (Nat.le_add_left 3 n)

theorem rank_compare_trans {l m n : Metadata} {k : Nat} (h : (compare legacy l m).rank ≤ k)
    (h' : (compare legacy m n).rank ≤ k) : (compare legacy l n).rank ≤ k := by
  rw [rank_compare_le] at h h' ⊢
  exact ⟨rank_compareFields_trans h.1 h'.1, rank_gradeKind_trans h.2 h'.2⟩

end Metadata

end ItemLexicon
