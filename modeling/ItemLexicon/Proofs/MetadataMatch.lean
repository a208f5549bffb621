import ItemLexicon.Match.Metadata
import ItemLexicon.Proofs.Quality
import ItemLexicon.Proofs.TagEquality

namespace ItemLexicon.Metadata

structure Agrees (m n : Metadata) : Prop where
  displayName : m.displayName = n.displayName
  lore : m.lore = n.lore
  enchantments : m.enchantments = n.enchantments
  hideFlags : m.hideFlags = n.hideFlags
  kind : m.kind.canonical = n.kind.canonical
  extra : ∀ key, (Dictionary.get? key m.extra).map Tag.canonical =
    (Dictionary.get? key n.extra).map Tag.canonical

namespace Agrees

variable {l m n : Metadata}

theorem refl (m : Metadata) : m.Agrees m := ⟨rfl, rfl, rfl, rfl, rfl, fun _ => rfl⟩

theorem symm (h : m.Agrees n) : n.Agrees m :=
  ⟨h.displayName.symm, h.lore.symm, h.enchantments.symm, h.hideFlags.symm, h.kind.symm,
    fun key => (h.extra key).symm⟩

theorem trans (h : l.Agrees m) (h' : m.Agrees n) : l.Agrees n where
  displayName := h.displayName.trans h'.displayName
  lore := h.lore.trans h'.lore
  enchantments := h.enchantments.trans h'.enchantments
  hideFlags := h.hideFlags.trans h'.hideFlags
  kind := h.kind.trans h'.kind
  extra key := (h.extra key).trans (h'.extra key)

theorem eq_empty (h : m.Agrees .empty) : m = .empty := by
  have kind : m.kind = .plain := by
    have hk := h.kind
    cases hm : m.kind <;> simp [hm, empty, MetadataKind.canonical] at hk
    rfl
  have extra : m.extra = [] := by
    have he := h.extra
    cases hm : m.extra with
    | nil => rfl
    | cons e es => simpa [hm, empty, Dictionary.get?] using he e.1
  obtain ⟨displayName, lore, enchantments, hideFlags, -, -⟩ := h
  cases m
  simp_all [empty]

theorem iff_same (h : m.extra.Sorted) (h' : n.extra.Sorted) :
    m.Agrees n ↔ m.same n = true := by
  simp only [same, Bool.and_eq_true, beq_iff_eq, MetadataKind.same_iff,
    Tag.sameEntries_iff_get? h h']
  constructor
  · intro agrees
    exact ⟨⟨⟨⟨⟨agrees.displayName, agrees.lore⟩, agrees.enchantments⟩, agrees.hideFlags⟩,
      agrees.kind⟩, agrees.extra⟩
  · rintro ⟨⟨⟨⟨⟨displayName, lore⟩, enchantments⟩, hideFlags⟩, kind⟩, extra⟩
    exact ⟨displayName, lore, enchantments, hideFlags, kind, extra⟩

end Agrees

section Grade

variable {equal ours theirs : Bool}

theorem rank_grade_le_two : (grade equal ours theirs).rank ≤ 2 := by
  revert equal ours theirs
  decide

theorem rank_grade_le_zero : (grade equal ours theirs).rank ≤ 0 ↔ equal = true := by
  revert equal ours theirs
  decide

theorem rank_grade_le_one (h : theirs = false) (h' : equal = false → ours = true) :
    (grade equal ours theirs).rank ≤ 1 := by
  revert equal ours theirs
  decide

theorem equal_of_rank_grade_le_one (h : ours = false) (hg : (grade equal ours theirs).rank ≤ 1) :
    equal = true := by
  revert equal ours theirs
  decide

end Grade

theorem gradeExtra_of_get?_eq_none {first second : Tags} {key : String}
    (h : Dictionary.get? key first = none) (h' : Dictionary.get? key second = none) :
    gradeExtra first second key = .exact := by
  rw [gradeExtra, h, h']
  rfl

theorem rank_compareFields_le (m n : Metadata) (k : Nat) :
    (compareFields m n).rank ≤ k ↔
      (∀ key, (gradeExtra m.extra n.extra key).rank ≤ k) ∧
      (grade (m.displayName == n.displayName) m.displayName.isSome
        n.displayName.isSome).rank ≤ k ∧
      (grade (m.lore == n.lore) m.lore.isSome n.lore.isSome).rank ≤ k ∧
      (grade (m.enchantments == n.enchantments) (!m.enchantments.isEmpty)
        (!n.enchantments.isEmpty)).rank ≤ k ∧
      (grade (m.hideFlags == n.hideFlags) (m.hideFlags != 0) (n.hideFlags != 0)).rank ≤ k := by
  have keys : (∀ key ∈ Dictionary.keys m.extra ++ Dictionary.keys n.extra,
      (gradeExtra m.extra n.extra key).rank ≤ k) ↔
      ∀ key, (gradeExtra m.extra n.extra key).rank ≤ k := by
    constructor
    · intro h key
      by_cases hk : key ∈ Dictionary.keys m.extra ++ Dictionary.keys n.extra
      · exact h key hk
      · rw [List.mem_append, not_or, ← Dictionary.get?_eq_none_iff,
          ← Dictionary.get?_eq_none_iff] at hk
        rw [gradeExtra_of_get?_eq_none hk.1 hk.2]
        exact Nat.zero_le k
    · intro h key _
      exact h key
  rw [compareFields, ← keys]
  simp only [List.foldl_cons, List.foldl_nil, Quality.rank_worst, Nat.max_le,
    Quality.rank_foldl_worst_le, Quality.rank_exact, Nat.zero_le, true_and, and_assoc]

theorem rank_compareFields_le_two (m n : Metadata) : (compareFields m n).rank ≤ 2 := by
  rw [rank_compareFields_le]
  exact ⟨fun _ => rank_grade_le_two, rank_grade_le_two, rank_grade_le_two, rank_grade_le_two,
    rank_grade_le_two⟩

def gradeKind (legacy : Bool) (ours theirs : MetadataKind) : Quality :=
  compareKinds legacy .exact ours theirs

theorem compareKinds_eq_worst (legacy : Bool) {q : Quality} (h : q.rank ≤ 2)
    (ours theirs : MetadataKind) :
    compareKinds legacy q ours theirs = q.worst (gradeKind legacy ours theirs) := by
  have material : q.worst .sameMaterial = .sameMaterial := Quality.worst_of_le h
  have different : q.worst .different = .different :=
    Quality.worst_of_le (h.trans (Nat.le_succ 2))
  rw [gradeKind]
  cases theirs <;> cases ours <;> simp only [compareKinds, different, Quality.exact_worst] <;>
    (repeat' split) <;> simp_all

theorem compare_eq_worst (legacy : Bool) (m n : Metadata) :
    compare legacy m n = (compareFields m n).worst (gradeKind legacy m.kind n.kind) :=
  compareKinds_eq_worst legacy (rank_compareFields_le_two m n) m.kind n.kind

theorem rank_compare_le (legacy : Bool) (m n : Metadata) (k : Nat) :
    (compare legacy m n).rank ≤ k ↔
      (compareFields m n).rank ≤ k ∧ (gradeKind legacy m.kind n.kind).rank ≤ k := by
  rw [compare_eq_worst, Quality.rank_worst, Nat.max_le]

theorem rank_gradeKind_le_zero (legacy : Bool) (k l : MetadataKind) :
    (gradeKind legacy k l).rank ≤ 0 ↔ k.canonical = l.canonical := by
  rw [← MetadataKind.same_iff, ← Quality.eq_exact_iff, gradeKind]
  cases l <;> cases k <;> cases legacy <;> simp [compareKinds, MetadataKind.same, grade] <;> grind

theorem gradeKind_congr_right (legacy : Bool) (k : MetadataKind) {l l' : MetadataKind}
    (h : l.canonical = l'.canonical) : gradeKind legacy k l = gradeKind legacy k l' := by
  have same : k.same l = k.same l' := by
    rw [Bool.eq_iff_iff, MetadataKind.same_iff, MetadataKind.same_iff, h]
  cases l <;> cases l' <;> simp only [MetadataKind.canonical, reduceCtorEq] at h
  case plain.plain => rfl
  case potion.potion => cases k <;> simp only [gradeKind, compareKinds, same]
  case spawnEgg.spawnEgg =>
    cases k <;> simp only [gradeKind, compareKinds, same, MetadataKind.isPlain]
  case skull.skull => cases k <;> simp only [gradeKind, compareKinds, same]
  case container.container items items' =>
    have empty : items.isEmpty = items'.isEmpty := by
      cases items <;> cases items' <;> simp_all [Tag.canonicalItems]
    cases k with
    | container contents =>
      rw [MetadataKind.same, MetadataKind.same] at same
      simp only [gradeKind, compareKinds, same, empty]
    | _ => rfl

theorem rank_gradeKind_plain_right (legacy : Bool) (k : MetadataKind) :
    (gradeKind legacy k .plain).rank ≤ 1 := by
  rw [gradeKind]
  cases k <;> simp [compareKinds, MetadataKind.same, MetadataKind.isPlain, grade, Quality.rank]

theorem eq_plain_of_rank_gradeKind_le_one {legacy : Bool} {l : MetadataKind}
    (h : (gradeKind legacy .plain l).rank ≤ 1) : l = .plain := by
  rw [gradeKind] at h
  cases l <;> cases legacy <;>
    simp_all [compareKinds, MetadataKind.same, MetadataKind.isPlain, grade, Quality.rank]

theorem rank_gradeExtra_le_zero (first second : Tags) (key : String) :
    (gradeExtra first second key).rank ≤ 0 ↔
      (Dictionary.get? key first).map Tag.canonical =
        (Dictionary.get? key second).map Tag.canonical := by
  rw [gradeExtra, rank_grade_le_zero, Tag.sameOption_iff]

theorem gradeExtra_congr_right (first : Tags) {second second' : Tags} {key : String}
    (h : (Dictionary.get? key second).map Tag.canonical =
      (Dictionary.get? key second').map Tag.canonical) :
    gradeExtra first second key = gradeExtra first second' key := by
  have same : Tag.sameOption (Dictionary.get? key first) (Dictionary.get? key second) =
      Tag.sameOption (Dictionary.get? key first) (Dictionary.get? key second') := by
    rw [Bool.eq_iff_iff, Tag.sameOption_iff, Tag.sameOption_iff, h]
  have isSome : (Dictionary.get? key second).isSome = (Dictionary.get? key second').isSome := by
    rw [← Option.isSome_map (f := Tag.canonical), h, Option.isSome_map]
  rw [gradeExtra, gradeExtra, same, isSome]

theorem compare_eq_exact_iff (legacy : Bool) (m n : Metadata) :
    compare legacy m n = .exact ↔ m.Agrees n := by
  rw [Quality.eq_exact_iff, rank_compare_le, rank_compareFields_le, rank_gradeKind_le_zero]
  simp only [rank_gradeExtra_le_zero, rank_grade_le_zero, beq_iff_eq]
  constructor
  · rintro ⟨⟨extra, displayName, lore, enchantments, hideFlags⟩, kind⟩
    exact ⟨displayName, lore, enchantments, hideFlags, kind, extra⟩
  · intro h
    exact ⟨⟨h.extra, h.displayName, h.lore, h.enchantments, h.hideFlags⟩, h.kind⟩

@[simp] theorem compare_self (legacy : Bool) (m : Metadata) : compare legacy m m = .exact :=
  (compare_eq_exact_iff legacy m m).mpr (Agrees.refl m)

theorem compare_congr_right (legacy : Bool) (m : Metadata) {n n' : Metadata} (h : n.Agrees n') :
    compare legacy m n = compare legacy m n' := by
  have kind := gradeKind_congr_right legacy m.kind h.kind
  have extra : ∀ key, gradeExtra m.extra n.extra key = gradeExtra m.extra n'.extra key :=
    fun key => gradeExtra_congr_right m.extra (h.extra key)
  apply Quality.eq_of_rank_le_iff
  intro k
  rw [rank_compare_le, rank_compare_le, rank_compareFields_le, rank_compareFields_le, kind,
    h.displayName, h.lore, h.enchantments, h.hideFlags]
  simp only [extra]

theorem rank_compare_empty_le_one (legacy : Bool) (m : Metadata) :
    (compare legacy m .empty).rank ≤ 1 := by
  rw [rank_compare_le, rank_compareFields_le]
  refine ⟨⟨?extra, ?displayName, ?lore, ?enchantments, ?hideFlags⟩,
    rank_gradeKind_plain_right legacy m.kind⟩
  case extra =>
    intro key
    apply rank_grade_le_one rfl
    cases Dictionary.get? key m.extra <;> simp [empty, Tag.sameOption]
  case displayName =>
    apply rank_grade_le_one rfl
    cases m.displayName <;> simp [empty]
  case lore =>
    apply rank_grade_le_one rfl
    cases m.lore <;> simp [empty]
  case enchantments =>
    apply rank_grade_le_one rfl
    cases m.enchantments <;> simp [empty]
  case hideFlags =>
    apply rank_grade_le_one rfl
    simp [empty]

theorem agrees_of_rank_compare_empty_le_one {legacy : Bool} {n : Metadata}
    (h : (compare legacy .empty n).rank ≤ 1) : Metadata.empty.Agrees n := by
  rw [rank_compare_le, rank_compareFields_le] at h
  obtain ⟨⟨extra, displayName, lore, enchantments, hideFlags⟩, kind⟩ := h
  refine ⟨?_, ?_, ?_, ?_, ?_, ?_⟩
  · exact eq_of_beq (equal_of_rank_grade_le_one rfl displayName)
  · exact eq_of_beq (equal_of_rank_grade_le_one rfl lore)
  · exact eq_of_beq (equal_of_rank_grade_le_one rfl enchantments)
  · exact eq_of_beq (equal_of_rank_grade_le_one rfl hideFlags)
  · rw [eq_plain_of_rank_gradeKind_le_one kind]
    rfl
  · intro key
    rw [← Tag.sameOption_iff]
    exact equal_of_rank_grade_le_one rfl (extra key)

end ItemLexicon.Metadata
