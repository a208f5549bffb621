import ItemLexicon.Proofs.MetadataCover

/-! The fields of metadata, and how each of them grades by itself.  The quality of a match is the
worst of these grades. -/

namespace ItemLexicon

namespace MetadataKind

def Lacks (legacy : Bool) (subject pattern : MetadataKind) : Prop :=
  pattern.sort? legacy ≠ none ∧ subject.sort? legacy ≠ pattern.sort? legacy

instance (legacy : Bool) (subject pattern : MetadataKind) :
    Decidable (Lacks legacy subject pattern) := inferInstanceAs (Decidable (_ ∧ _))

def fills : MetadataKind → MetadataKind → Bool
  | .container items, .container wanted => !items.isEmpty && wanted.isEmpty
  | _, _ => false

end MetadataKind

namespace Metadata

/-- What is graded by itself: one of the typed fields, or the other tag of one key. -/
inductive Field
  | displayName
  | lore
  | enchantments
  | hideFlags
  | kind
  | extra (key : String)
  deriving DecidableEq

namespace Field

def IsOf (m n : Metadata) : Field → Prop
  | .extra key => key ∈ Dictionary.keys m.extra ∨ key ∈ Dictionary.keys n.extra
  | _ => True

def Equal (m n : Metadata) : Field → Prop
  | .displayName => m.displayName = n.displayName
  | .lore => m.lore = n.lore
  | .enchantments => m.enchantments = n.enchantments
  | .hideFlags => m.hideFlags = n.hideFlags
  | .kind => m.kind.same n.kind = true
  | .extra key => Tag.sameOption (Dictionary.get? key m.extra) (Dictionary.get? key n.extra) = true

instance (m n : Metadata) : (f : Field) → Decidable (f.Equal m n)
  | .displayName => inferInstanceAs (Decidable (_ = _))
  | .lore => inferInstanceAs (Decidable (_ = _))
  | .enchantments => inferInstanceAs (Decidable (_ = _))
  | .hideFlags => inferInstanceAs (Decidable (_ = _))
  | .kind => inferInstanceAs (Decidable (_ = true))
  | .extra _ => inferInstanceAs (Decidable (_ = true))

def IsSet (m : Metadata) : Field → Prop
  | .displayName => m.displayName ≠ none
  | .lore => m.lore ≠ none
  | .enchantments => m.enchantments ≠ []
  | .hideFlags => m.hideFlags ≠ 0
  | .kind => m.kind.isPlain = false
  | .extra key => key ∈ Dictionary.keys m.extra

instance (m : Metadata) : (f : Field) → Decidable (f.IsSet m)
  | .displayName => inferInstanceAs (Decidable (_ ≠ _))
  | .lore => inferInstanceAs (Decidable (_ ≠ _))
  | .enchantments => inferInstanceAs (Decidable (_ ≠ _))
  | .hideFlags => inferInstanceAs (Decidable (_ ≠ _))
  | .kind => inferInstanceAs (Decidable (_ = false))
  | .extra _ => inferInstanceAs (Decidable (_ ∈ _))

end Field

/-- What a field grades by itself.  Only kinds can make the subject different, and an empty
container takes contents. -/
def gradeOf (legacy : Bool) (m n : Metadata) (f : Field) : Quality :=
  if f.Equal m n then .exact
  else if f = .kind ∧ m.kind.Lacks legacy n.kind then .different
  else if f = .kind ∧ m.kind.fills n.kind then .sameItem
  else if f.IsSet m ∧ ¬f.IsSet n then .sameItem
  else .sameMaterial

variable {legacy : Bool} {m n : Metadata} {f : Field} {k : Nat}

theorem gradeOf_eq_grade {equal ours theirs : Bool} (f : Field) (hf : f ≠ .kind)
    (he : f.Equal m n ↔ equal = true) (ho : f.IsSet m ↔ ours = true)
    (ht : f.IsSet n ↔ theirs = true) : gradeOf legacy m n f = grade equal ours theirs := by
  rw [gradeOf, grade]
  simp [hf, he, ho, ht]

theorem gradeOf_displayName : gradeOf legacy m n .displayName =
    grade (m.displayName == n.displayName) m.displayName.isSome n.displayName.isSome := by
  apply gradeOf_eq_grade .displayName nofun <;>
    simp [Field.Equal, Field.IsSet, Option.ne_none_iff_isSome]

theorem gradeOf_lore : gradeOf legacy m n .lore =
    grade (m.lore == n.lore) m.lore.isSome n.lore.isSome := by
  apply gradeOf_eq_grade .lore nofun <;>
    simp [Field.Equal, Field.IsSet, Option.ne_none_iff_isSome]

theorem gradeOf_enchantments : gradeOf legacy m n .enchantments =
    grade (m.enchantments == n.enchantments) (!m.enchantments.isEmpty)
      (!n.enchantments.isEmpty) := by
  apply gradeOf_eq_grade .enchantments nofun <;> simp [Field.Equal, Field.IsSet]

theorem gradeOf_hideFlags : gradeOf legacy m n .hideFlags =
    grade (m.hideFlags == n.hideFlags) (m.hideFlags != 0) (n.hideFlags != 0) := by
  apply gradeOf_eq_grade .hideFlags nofun <;> simp [Field.Equal, Field.IsSet]

theorem gradeOf_extra (key : String) :
    gradeOf legacy m n (.extra key) = gradeExtra m.extra n.extra key := by
  have isSome (d : Tags) : key ∈ Dictionary.keys d ↔ (Dictionary.get? key d).isSome = true := by
    rw [← Option.ne_none_iff_isSome, Ne, Dictionary.get?_eq_none_iff, not_not]
  exact gradeOf_eq_grade (.extra key) nofun Iff.rfl (isSome m.extra) (isSome n.extra)

theorem fills_eq_isEmpty {items wanted : List Tag} (h : Tag.sameItems items wanted = false) :
    (MetadataKind.container items).fills (.container wanted) = wanted.isEmpty := by
  cases items <;> cases wanted <;> simp_all [MetadataKind.fills, Tag.sameItems]

theorem gradeKind_eq (legacy : Bool) (k l : MetadataKind) : gradeKind legacy k l =
    if k.same l then .exact
    else if k.Lacks legacy l then .different
    else if k.fills l then .sameItem
    else if k.isPlain = false ∧ ¬l.isPlain = false then .sameItem
    else .sameMaterial := by
  cases same : k.same l with
  | true =>
    rw [if_pos rfl, Quality.eq_exact_iff]
    exact (rank_gradeKind_le_zero legacy k l).mpr ((MetadataKind.same_iff k l).mp same)
  | false =>
    rw [if_neg Bool.false_ne_true, gradeKind]
    cases l with
    | container wanted =>
      cases k with
      | container items =>
        rw [MetadataKind.same] at same
        simp [compareKinds, same, fills_eq_isEmpty same, MetadataKind.Lacks,
          MetadataKind.sort?, MetadataKind.isPlain]
      | _ => cases legacy <;> simp [compareKinds, MetadataKind.Lacks, MetadataKind.sort?]
    | _ =>
      cases k <;> cases legacy <;>
        simp_all [compareKinds, grade, MetadataKind.Lacks, MetadataKind.sort?,
          MetadataKind.fills, MetadataKind.isPlain, MetadataKind.same]

theorem gradeOf_kind : gradeOf legacy m n .kind = gradeKind legacy m.kind n.kind := by
  rw [gradeKind_eq, gradeOf]
  simp only [true_and]
  rfl

theorem rank_compare_le_iff_forall :
    (compare legacy m n).rank ≤ k ↔ ∀ f, (gradeOf legacy m n f).rank ≤ k := by
  rw [rank_compare_le, rank_compareFields_le]
  constructor
  · rintro ⟨⟨extra, displayName, lore, enchantments, hideFlags⟩, kind⟩ f
    cases f with
    | displayName => rwa [gradeOf_displayName]
    | lore => rwa [gradeOf_lore]
    | enchantments => rwa [gradeOf_enchantments]
    | hideFlags => rwa [gradeOf_hideFlags]
    | kind => rwa [gradeOf_kind]
    | extra key =>
      rw [gradeOf_extra]
      exact extra key
  · intro h
    rw [← gradeOf_kind, ← gradeOf_displayName, ← gradeOf_lore, ← gradeOf_enchantments,
      ← gradeOf_hideFlags]
    exact ⟨⟨fun key => gradeOf_extra key ▸ h (.extra key), h .displayName, h .lore,
      h .enchantments, h .hideFlags⟩, h .kind⟩

theorem gradeOf_of_not_isOf (h : ¬f.IsOf m n) : gradeOf legacy m n f = .exact := by
  cases f with
  | extra key =>
    rw [Field.IsOf, not_or, ← Dictionary.get?_eq_none_iff, ← Dictionary.get?_eq_none_iff] at h
    rw [gradeOf_extra, gradeExtra_of_get?_eq_none h.1 h.2]
  | _ => exact absurd trivial h

theorem exists_rank_le_gradeOf (legacy : Bool) (m n : Metadata) :
    ∃ f, (compare legacy m n).rank ≤ (gradeOf legacy m n f).rank := by
  by_contra better
  simp only [not_exists, Nat.not_le] at better
  -- Every field would be better by one rank, and the whole with them.
  have whole : (compare legacy m n).rank ≤ (compare legacy m n).rank - 1 :=
    rank_compare_le_iff_forall.mpr fun f => Nat.le_sub_one_of_lt (better f)
  have some' := better .displayName
  omega

/-- The quality of a match is the worst grade of a field. -/
theorem compare_is_worst_grade (legacy : Bool) (m n : Metadata) :
    (∀ f : Field, f.IsOf m n →
      (gradeOf legacy m n f).isAtLeast (compare legacy m n) = true) ∧
    ∃ f : Field, f.IsOf m n ∧ gradeOf legacy m n f = compare legacy m n := by
  have bound : ∀ f, (gradeOf legacy m n f).rank ≤ (compare legacy m n).rank :=
    rank_compare_le_iff_forall.mp le_rfl
  refine ⟨fun f _ => Quality.isAtLeast_iff.mpr (bound f), ?_⟩
  obtain ⟨f, hf⟩ := exists_rank_le_gradeOf legacy m n
  by_cases of : f.IsOf m n
  · exact ⟨f, of, Quality.rank_injective (le_antisymm (bound f) hf)⟩
  · -- then the match is exact, and any field will do
    rw [gradeOf_of_not_isOf of] at hf
    exact ⟨.displayName, trivial, Quality.rank_injective
      (le_antisymm (bound .displayName) (hf.trans (Nat.zero_le _)))⟩

end Metadata

end ItemLexicon
