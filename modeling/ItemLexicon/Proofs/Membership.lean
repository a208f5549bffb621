import ItemLexicon.Proofs.ReachableRegistry
import ItemLexicon.Resolution.Context
import Mathlib.Data.Fintype.EquivFin

namespace ItemLexicon

namespace Metadata

variable {legacy : Bool} {m n : Metadata} {key : String}

theorem rank_compare_insert_le_one (t : Tag) (new : Dictionary.get? key m.extra = none) :
    (compare legacy { m with extra := Dictionary.insert key t m.extra } m).rank ≤ 1 := by
  rw [rank_compare_le, rank_compareFields_le]
  have kind : (gradeKind legacy m.kind m.kind).rank ≤ 0 :=
    (rank_gradeKind_le_zero legacy m.kind m.kind).mpr rfl
  refine ⟨⟨?_, ?_, ?_, ?_, ?_⟩, kind.trans (Nat.zero_le 1)⟩
  · intro k
    by_cases hk : k = key
    · subst hk
      rw [gradeExtra, Dictionary.get?_insert_self, new]
      exact rank_grade_le_one rfl fun _ => rfl
    · have same : (gradeExtra (Dictionary.insert key t m.extra) m.extra k).rank ≤ 0 := by
        rw [rank_gradeExtra_le_zero, Dictionary.get?_insert_of_ne hk]
      exact same.trans (Nat.zero_le 1)
  all_goals simp [grade]

theorem two_le_rank_compare {t : Tag} (hm : Dictionary.get? key m.extra = none)
    (hn : Dictionary.get? key n.extra = some t) : 2 ≤ (compare legacy m n).rank := by
  rw [← Nat.not_lt, Nat.lt_succ_iff, rank_compare_le, rank_compareFields_le]
  rintro ⟨⟨extra, -⟩, -⟩
  have costs := extra key
  rw [gradeExtra, hm, hn] at costs
  simp [Tag.sameOption, grade, Quality.rank] at costs

theorem exists_richer (legacy : Bool) (m : Metadata) (ms : List Metadata) (hm : m ∈ ms) :
    ∃ n, (compare legacy n m).rank ≤ 1 ∧ ∀ m' ∈ ms, 2 ≤ (compare legacy m' n).rank := by
  obtain ⟨key, new⟩ := Infinite.exists_notMem_finset
    (ms.flatMap fun m => Dictionary.keys m.extra).toFinset
  have absent : ∀ m' ∈ ms, Dictionary.get? key m'.extra = none := by
    intro m' hm'
    rw [Dictionary.get?_eq_none_iff]
    intro h
    exact new (List.mem_toFinset.mpr (List.mem_flatMap.mpr ⟨m', hm', h⟩))
  exact ⟨{ m with extra := Dictionary.insert key .null m.extra },
    rank_compare_insert_le_one .null (absent m hm),
    fun m' hm' => two_le_rank_compare (absent m' hm') (Dictionary.get?_insert_self ..)⟩

end Metadata

namespace Item

variable {legacy : Bool} {s t : Item}

theorem compare_of_isAnything (h : s.isAnything = true ∨ t.isAnything = true) :
    s.compare legacy t = .exact := by
  apply compare_of_decided
  rw [decided?, if_pos]
  simpa using h

theorem rank_metadata_le_one (hs : s.isAnything = false) (ht : t.isAnything = false)
    (tags : t.tagsGiven = true) (h : (s.compare legacy t).isAtLeast .sameItem = true) :
    (Metadata.compare legacy s.metadata t.metadata).rank ≤ 1 := by
  rw [Quality.isAtLeast_iff] at h
  cases hd : decided? legacy s t with
  | some q =>
    rw [compare_of_decided hd] at h
    cases q with
    | exact => exact absurd hd (decided?_ne_exact hs ht)
    | sameItem => exact absurd hd decided?_ne_sameItem
    | sameMaterial => exact absurd h (by decide)
    | different => exact absurd h (by decide)
  | none =>
    rw [compare_of_undecided hd] at h
    split at h
    · rw [withMetadata, tags] at h
      simp only [Bool.not_true, Bool.and_false, Bool.false_eq_true, if_false, Quality.rank_worst,
        Nat.max_le] at h
      exact h.2
    · rename_i far
      rw [Quality.isAtLeast_iff] at far
      exact absurd h far

theorem rank_compare_setMetadata_le_one (ht : t.isAnything = false) (free : t.itemForm = false)
    {m : Metadata} (close : (Metadata.compare legacy m t.metadata).rank ≤ 1) :
    ((t.setMetadata m).compare legacy t).rank ≤ 1 := by
  have undecided : decided? legacy (t.setMetadata m) t = none := by
    rw [@decided?_eq_none_iff legacy (t.setMetadata m) t ht ht]
    cases legacy <;> simp [setMetadata, free]
  have body : compareBody (t.setMetadata m) t = .exact := compareBody_eq_exact_iff.mpr ⟨rfl, rfl⟩
  rw [compare_of_undecided undecided, body]
  rw [if_pos (by decide), withMetadata_of_ne, Quality.exact_worst]
  · exact close
  · intro h
    rw [show (t.setMetadata m).metadata = m from rfl] at h
    rw [h] at close
    exact absurd close (by decide)

theorem isAlias_setMetadata (t : Item) (m : Metadata) : (t.setMetadata m).isAlias = false := by
  simp [isAlias, setMetadata, isDefault, isUnflagged]

theorem isAlias_setDurability (h : t.isAlias = false) (n : Nat) :
    (t.setDurability n).isAlias = false := by
  simp_all [isAlias, setDurability, isDefault, isUnflagged]

end Item

namespace Selector

variable {legacy : Bool} {s : Selector} {i : Item}

theorem isOfType_iff : s.isOfType legacy i = true ↔ ∃ t ∈ s.types,
    (if t.isAlias then i.compare legacy t else t.compare legacy i).isAtLeast .sameItem = true := by
  simp only [isOfType, List.any_eq_true, Item.isSameItem]

theorem isSupertypeOf_ofItems_iff : s.isSupertypeOf legacy (.ofItems [i]) = true ↔
    ∃ t ∈ s.types, (i.compare legacy t).isAtLeast .sameItem = true := by
  simp only [isSupertypeOf, ofItems, ofSelection, Selection.empty, List.all_cons, List.all_nil,
    Bool.and_true, Bool.or_eq_true, List.any_eq_true]
  constructor
  · rintro (⟨t, ht, any⟩ | found)
    · refine ⟨t, ht, ?_⟩
      rw [Item.compare_of_isAnything (.inr any)]
      rfl
    · exact found
  · exact .inr

theorem isOfType_eq_of_isAlias (h : ∀ t ∈ s.types, t.isAlias = true) (i : Item) :
    s.isOfType legacy i = s.isSupertypeOf legacy (.ofItems [i]) := by
  rw [Bool.eq_iff_iff, isOfType_iff, isSupertypeOf_ofItems_iff]
  apply exists_congr
  intro t
  apply and_congr_right
  intro ht
  rw [if_pos (h t ht)]

theorem isOfType_eq_of_isAnything {t : Item} (ht : t ∈ s.types) (any : t.isAnything = true)
    (i : Item) : s.isOfType legacy i = s.isSupertypeOf legacy (.ofItems [i]) := by
  have left : s.isOfType legacy i = true := by
    refine isOfType_iff.mpr ⟨t, ht, ?_⟩
    rw [Item.compare_of_isAnything (.inr any), Item.compare_of_isAnything (.inl any), ite_self]
    rfl
  have right : s.isSupertypeOf legacy (.ofItems [i]) = true := by
    refine isSupertypeOf_ofItems_iff.mpr ⟨t, ht, ?_⟩
    rw [Item.compare_of_isAnything (.inr any)]
    rfl
  rw [left, right]

theorem isOfType_iff_of_not_isAlias (h : ∀ t ∈ s.types, t.isAlias = false) (i : Item) :
    s.isOfType legacy i = true ↔
      ∃ t ∈ s.types, (ofItems [i]).isSupertypeOf legacy (.ofItems [t]) = true := by
  rw [isOfType_iff]
  apply exists_congr
  intro t
  apply and_congr_right
  intro ht
  rw [isSupertypeOf_ofItems_iff, h t ht]
  simp [ofItems, ofSelection]

theorem exists_isOfType_ne (ne : s.types ≠ []) (free : ∀ t ∈ s.types, t.itemForm = false)
    (h : ∀ t ∈ s.types, t.isAlias = false) (hw : ∀ t ∈ s.types, t.isAnything = false) :
    ∃ i, s.isOfType legacy i = false ∧ s.isSupertypeOf legacy (.ofItems [i]) = true := by
  obtain ⟨t, ht⟩ := List.exists_mem_of_ne_nil s.types ne
  obtain ⟨m, covered, apart⟩ := Metadata.exists_richer legacy t.metadata
    (s.types.map Item.metadata) (List.mem_map_of_mem ht)
  refine ⟨t.setMetadata m, ?_, ?_⟩
  · rw [Bool.eq_false_iff, Ne, isOfType_iff]
    rintro ⟨x, hx, close⟩
    rw [h x hx, if_neg Bool.false_ne_true] at close
    have le := @Item.rank_metadata_le_one legacy x (t.setMetadata m) (hw x hx) (hw t ht) rfl close
    exact absurd le (Nat.not_le.mpr (apart x.metadata (List.mem_map_of_mem hx)))
  · refine isSupertypeOf_ofItems_iff.mpr ⟨t, ht, Quality.isAtLeast_iff.mpr ?_⟩
    exact Item.rank_compare_setMetadata_le_one (hw t ht) (free t ht) covered

inductive Change
  | setMetadata (m : Metadata)
  | enchant (es : List Enchantment)
  | disenchant (es : List Enchantment)
  | clearEnchantments
  | setDurability (durability : Nat)

def Change.isOfMetadata : Change → Bool
  | .setDurability _ => false
  | _ => true

def change (s : Selector) : Change → Selector
  | .setMetadata m => s.setMetadata m
  | .enchant es => s.enchant es
  | .disenchant es => s.disenchant es
  | .clearEnchantments => s.clearEnchantments
  | .setDurability n => s.setDurability n

def changeAll (s : Selector) (cs : List Change) : Selector := cs.foldl change s

theorem types_change_of_isOfMetadata (s : Selector) {c : Change} (hc : c.isOfMetadata = true) :
    ∃ f : Item → Metadata, (s.change c).types = s.types.map fun t => t.setMetadata (f t) := by
  cases c with
  | setDurability => cases hc
  | _ => exact ⟨_, rfl⟩

theorem types_change_of_not_isOfMetadata (s : Selector) {c : Change}
    (hc : c.isOfMetadata = false) :
    ∃ n, (s.change c).types = s.types.map fun t => t.setDurability n := by
  cases c with
  | setDurability n => exact ⟨n, rfl⟩
  | _ => cases hc

theorem exists_types_change (s : Selector) (c : Change) :
    ∃ f : Item → Item, (s.change c).types = s.types.map f ∧
      (∀ t, (f t).isAnything = t.isAnything ∧ (f t).itemForm = t.itemForm) ∧
      (∀ t, t.isAlias = false → (f t).isAlias = false) ∧
      if c.isOfMetadata then ∀ t, (f t).isAlias = false
      else ∀ t, (f t).fromAlias = t.fromAlias := by
  cases hc : c.isOfMetadata with
  | true =>
    obtain ⟨f, hf⟩ := s.types_change_of_isOfMetadata hc
    exact ⟨_, hf, fun t => ⟨rfl, rfl⟩, fun t _ => t.isAlias_setMetadata _,
      fun t => t.isAlias_setMetadata _⟩
  | false =>
    obtain ⟨n, hn⟩ := s.types_change_of_not_isOfMetadata hc
    exact ⟨_, hn, fun t => ⟨rfl, rfl⟩, fun t ht => Item.isAlias_setDurability ht n, fun t => rfl⟩

/-- The variants of a resolved name, whatever was done to them since: all of them stem from aliases,
or none can stand for one any more, or there is only one. -/
structure Resolved (s : Selector) : Prop where
  ne_nil : s.types ≠ []
  free : ∀ t ∈ s.types, t.itemForm = false
  uniform : (∀ t ∈ s.types, t.fromAlias = true) ∨ (∀ t ∈ s.types, t.isAlias = false) ∨
    ∃ t, s.types = [t]

namespace Resolved

theorem change (h : s.Resolved) (c : Change) : (s.change c).Resolved := by
  obtain ⟨f, types, kept, never, changed⟩ := s.exists_types_change c
  refine ⟨?_, ?_, ?_⟩
  · rw [types]
    simpa using h.ne_nil
  · rw [types, List.forall_mem_map]
    intro t ht
    rw [(kept t).2]
    exact h.free t ht
  · simp only [types, List.forall_mem_map]
    rcases h.uniform with fromAlias | lost | ⟨t, single⟩
    · cases hc : c.isOfMetadata with
      | true =>
        rw [hc, if_pos rfl] at changed
        exact .inr (.inl fun t _ => changed t)
      | false =>
        rw [hc, if_neg Bool.false_ne_true] at changed
        exact .inl fun t ht => (changed t).trans (fromAlias t ht)
    · exact .inr (.inl fun t ht => never t (lost t ht))
    · exact .inr (.inr ⟨f t, by rw [single]; rfl⟩)

theorem changeAll (h : s.Resolved) (cs : List Change) : (s.changeAll cs).Resolved := by
  induction cs generalizing s with
  | nil => exact h
  | cons c cs ih => exact ih (h.change c)

theorem isAlias_cases (h : s.Resolved) :
    (∀ t ∈ s.types, t.isAlias = true) ∨ ∀ t ∈ s.types, t.isAlias = false := by
  rcases h.uniform with fromAlias | lost | ⟨t, single⟩
  · exact .inl fun t ht => by rw [Item.isAlias, fromAlias t ht, Bool.true_or]
  · exact .inr lost
  · cases ht : t.isAlias <;> simp [single, ht]

theorem isOfType_eq_iff (h : s.Resolved) (legacy : Bool) :
    (∀ i, s.isOfType legacy i = s.isSupertypeOf legacy (.ofItems [i])) ↔
      (∃ t ∈ s.types, t.isAnything = true) ∨ ∀ t ∈ s.types, t.isAlias = true := by
  constructor
  · intro agree
    -- Otherwise all variants are subjects, and one with more tags than it tells the tests apart.
    by_contra neither
    rw [not_or, not_exists] at neither
    have lost := h.isAlias_cases.resolve_left neither.2
    have bound : ∀ t ∈ s.types, t.isAnything = false := by
      intro t ht
      exact Bool.eq_false_iff.mpr fun any => neither.1 t ⟨ht, any⟩
    obtain ⟨i, isOfType, isSupertypeOf⟩ :=
      @exists_isOfType_ne legacy s h.ne_nil h.free lost bound
    rw [agree i, isSupertypeOf] at isOfType
    cases isOfType
  · rintro (⟨t, ht, any⟩ | aliases) i
    · exact isOfType_eq_of_isAnything ht any i
    · exact isOfType_eq_of_isAlias aliases i

end Resolved

theorem isAlias_changeAll_of_not_isAlias {s : Selector} (h : ∀ t ∈ s.types, t.isAlias = false)
    (cs : List Change) : ∀ t ∈ (s.changeAll cs).types, t.isAlias = false := by
  induction cs generalizing s with
  | nil => exact h
  | cons c cs ih =>
    apply ih
    obtain ⟨f, types, -, never, -⟩ := s.exists_types_change c
    rw [types, List.forall_mem_map]
    exact fun t ht => never t (h t ht)

theorem isAlias_changeAll_of_isOfMetadata (s : Selector) {c : Change} {cs : List Change}
    (hc : c ∈ cs) (changes : c.isOfMetadata = true) :
    ∀ t ∈ (s.changeAll cs).types, t.isAlias = false := by
  induction cs generalizing s with
  | nil => cases hc
  | cons d cs ih =>
    rcases List.mem_cons.mp hc with rfl | hc
    · have lost : ∀ t ∈ (s.change c).types, t.isAlias = false := by
        obtain ⟨f, types, -, -, changed⟩ := s.exists_types_change c
        rw [changes, if_pos rfl] at changed
        rw [types, List.forall_mem_map]
        exact fun t _ => changed t
      exact isAlias_changeAll_of_not_isAlias lost cs
    · exact ih (s.change d) hc

theorem isAlias_changeAll_of_fromAlias {s : Selector} (h : ∀ t ∈ s.types, t.fromAlias = true)
    {cs : List Change} (kept : ∀ c ∈ cs, c.isOfMetadata = false) :
    ∀ t ∈ (s.changeAll cs).types, t.isAlias = true := by
  induction cs generalizing s with
  | nil =>
    intro t ht
    rw [Item.isAlias, h t ht, Bool.true_or]
  | cons c cs ih =>
    rw [List.forall_mem_cons] at kept
    refine ih ?_ kept.2
    obtain ⟨f, types, -, -, changed⟩ := s.exists_types_change c
    rw [kept.1, if_neg Bool.false_ne_true] at changed
    rw [types, List.forall_mem_map]
    exact fun t ht => (changed t).trans (h t ht)

end Selector

namespace Context

variable {c : Context}

theorem isDefined_of_items? (h : c.registry.Reachable) {name : List Char} {items : List Item}
    (hi : c.items? name = some items) : ∀ t ∈ items, ∃ m info, t.IsDefined m info := by
  intro t ht
  obtain ⟨es, hes, rfl⟩ := Option.map_eq_some_iff.mp hi
  obtain ⟨e, he, rfl⟩ := List.mem_map.mp ht
  exact h.sound.isDefined hes he

theorem isDefined_of_alias? (h : c.registry.Reachable) {name : List Char} {items : List Item}
    (hi : c.alias? name = some items) : ∀ t ∈ items, ∃ m info, t.IsDefined m info := by
  rw [alias?] at hi
  split at hi
  · rename_i known
    cases hi
    exact isDefined_of_items? h known
  · split at hi
    · cases hi
    · split at hi
      · rename_i kept
        cases hi
        obtain ⟨all, known, kept⟩ := Option.map_eq_some_iff.mp kept
        intro t ht
        rw [← kept] at ht
        exact isDefined_of_items? h known t (List.mem_of_mem_filter ht)
      · cases hi

theorem type?_cases (h : c.registry.Reachable) {name : List Char} {items : List Item}
    (hi : c.type? name = some items) :
    (∀ t ∈ items, ∃ m info, t.IsDefined m info) ∨ name = [] ∧ ∃ m info, items = [.bare m info] := by
  rw [type?] at hi
  split at hi
  · rename_i empty
    obtain ⟨air, hair, rfl⟩ := Option.map_eq_some_iff.mp hi
    simp only [air?, Option.bind_eq_bind, Option.bind_eq_some_iff] at hair
    obtain ⟨m, -, info, -, hair⟩ := hair
    cases hair
    exact .inr ⟨List.isEmpty_iff.mp empty, m, info, rfl⟩
  · split at hi
    · cases hi
    · exact .inl (isDefined_of_alias? h hi)

theorem types_of_quantified? {q : Quantifier} {name : List Char} {s : Selector}
    (hs : c.quantified? q name = some s) : c.type? name = some s.types ∧ s.types ≠ [] := by
  rw [quantified?] at hs
  split at hs
  · rename_i known
    cases hs
    exact ⟨known, List.cons_ne_nil _ _⟩
  · cases hs

theorem resolved_of_quantified? (h : c.registry.Reachable) {q : Quantifier} {name : List Char}
    {s : Selector} (hs : c.quantified? q name = some s) : s.Resolved := by
  obtain ⟨known, ne⟩ := types_of_quantified? hs
  rcases type?_cases h known with aliases | ⟨-, m, info, air⟩
  · refine ⟨ne, fun t ht => ?_, .inl fun t ht => ?_⟩
    · obtain ⟨_, _, defined⟩ := aliases t ht
      exact defined.itemForm
    · obtain ⟨_, _, defined⟩ := aliases t ht
      exact defined.fromAlias
  · exact ⟨ne, by simp [air, Item.bare, Item.anything], .inr (.inr ⟨_, air⟩)⟩

theorem fromAlias_of_quantified? (h : c.registry.Reachable) {q : Quantifier} {name : List Char}
    {s : Selector} (hs : c.quantified? q name = some s) (named : name ≠ []) :
    ∀ t ∈ s.types, t.fromAlias = true := by
  rcases type?_cases h (types_of_quantified? hs).1 with aliases | ⟨empty, -⟩
  · intro t ht
    obtain ⟨_, _, defined⟩ := aliases t ht
    exact defined.fromAlias
  · exact absurd empty named

theorem exists_enchant_of_enchanted? {q : Quantifier} {sides : List Char × List Char}
    {s : Selector} (hs : c.enchanted? q sides = some s) :
    ∃ s' es, c.quantified? q sides.1 = some s' ∧ s = s'.enchant es := by
  rw [enchanted?] at hs
  split at hs
  · rename_i s' es named listed
    cases hs
    exact ⟨s', es, named, rfl⟩
  · cases hs

theorem resolve?_cases {text : String} {s : Selector} (hs : c.resolve? text = some s) :
    s = .everything ∨ (∃ q sides, c.enchanted? q sides = some s) ∨
      ∃ q name, c.quantified? q name = some s := by
  rw [resolve?] at hs
  split at hs
  · cases hs
  · split at hs
    · cases hs
      exact .inl rfl
    · rcases Option.or_eq_some_iff.mp hs with hs | ⟨-, hs⟩
      · obtain ⟨sides, -, hs⟩ := List.exists_of_findSome?_eq_some hs
        exact .inr (.inl ⟨_, sides, hs⟩)
      · exact .inr (.inr ⟨_, _, hs⟩)

theorem resolved_of_resolve? (h : c.registry.Reachable) {text : String} {s : Selector}
    (hs : c.resolve? text = some s) : s.Resolved := by
  rcases resolve?_cases hs with rfl | ⟨q, sides, hs⟩ | ⟨q, name, hs⟩
  · have types : Selector.everything.types = [.anything] := rfl
    exact ⟨List.cons_ne_nil _ _, by simp [types, Item.anything], .inr (.inr ⟨_, types⟩)⟩
  · obtain ⟨s', es, hs', rfl⟩ := exists_enchant_of_enchanted? hs
    exact (resolved_of_quantified? h hs').change (.enchant es)
  · exact resolved_of_quantified? h hs

/-- The two tests agree on a resolved selector that was changed since if it stands for every item or
all its variants can stand for an alias, and else they differ for some item. -/
theorem isOfType_eq_isSupertypeOf_iff (h : c.registry.Reachable) {text : String} {s : Selector}
    (hs : c.resolve? text = some s) (legacy : Bool) (cs : List Selector.Change) :
    ((∀ i, (s.changeAll cs).isOfType legacy i =
        (s.changeAll cs).isSupertypeOf legacy (.ofItems [i])) ↔
      (∃ t ∈ (s.changeAll cs).types, t.isAnything = true) ∨
        ∀ t ∈ (s.changeAll cs).types, t.isAlias = true) ∧
    ((∃ q sides, c.enchanted? q sides = some s) ∨ (∃ d ∈ cs, d.isOfMetadata = true) →
      ∀ t ∈ (s.changeAll cs).types, t.isAlias = false) ∧
    ((∃ q name, name ≠ [] ∧ c.quantified? q name = some s) → (∀ d ∈ cs, d.isOfMetadata = false) →
      ∀ t ∈ (s.changeAll cs).types, t.isAlias = true) ∧
    ((∀ t ∈ (s.changeAll cs).types, t.isAlias = false) →
      ∀ i, (s.changeAll cs).isOfType legacy i = true ↔
        ∃ t ∈ (s.changeAll cs).types,
          (Selector.ofItems [i]).isSupertypeOf legacy (.ofItems [t]) = true) := by
  refine ⟨((resolved_of_resolve? h hs).changeAll cs).isOfType_eq_iff legacy, ?_, ?_,
    Selector.isOfType_iff_of_not_isAlias⟩
  · rintro (⟨q, sides, enchanted⟩ | ⟨d, hd, changes⟩)
    · obtain ⟨s', es, -, rfl⟩ := exists_enchant_of_enchanted? enchanted
      have first : Selector.Change.enchant es ∈ .enchant es :: cs := List.mem_cons_self
      exact s'.isAlias_changeAll_of_isOfMetadata first rfl
    · exact s.isAlias_changeAll_of_isOfMetadata hd changes
  · rintro ⟨q, name, named, plain⟩ kept
    exact Selector.isAlias_changeAll_of_fromAlias (fromAlias_of_quantified? h plain named) kept

theorem isOfType_eq_isSupertypeOf_of_blade :
    let p : Platform := ⟨⟨[1, 20, 4]⟩, false, [⟨"minecraft:diamond_sword", false, 1561⟩],
      [⟨"minecraft:sharpness", []⟩]⟩
    let c := ofRegistry
      ((Registry.empty p).run [.register ⟨⟨"blade", "blade", .a⟩, "diamond_sword", [], []⟩])
    (∃ s, c.resolve? "2 blade" = some s ∧ ∀ i,
      (s.changeAll [.setDurability 5]).isOfType false i =
        (s.changeAll [.setDurability 5]).isSupertypeOf false (.ofItems [i])) ∧
    ∃ s, c.resolve? "2 blade of sharpness 5" = some s ∧ ¬ ∀ i,
      (s.changeAll [.setDurability 5]).isOfType false i =
        (s.changeAll [.setDurability 5]).isSupertypeOf false (.ofItems [i]) := by
  intro p c
  have reachable : c.registry.Reachable := (Registry.Reachable.empty p).run _
  let worn : Selector.Change := .setDurability 5
  have plain : (c.resolve? "2 blade").map
      (fun s => (s.changeAll [worn]).types.map Item.isAlias) = some [true] := by
    decide +kernel
  have enchanted : (c.resolve? "2 blade of sharpness 5").map
      (fun s => (s.changeAll [worn]).types.map fun t => (t.isAnything, t.isAlias)) =
      some [(false, false)] := by decide +kernel
  clear_value c
  constructor
  · obtain ⟨s, hs, aliases⟩ := Option.map_eq_some_iff.mp plain
    obtain ⟨t, types, isAlias⟩ := List.map_eq_singleton_iff.mp aliases
    refine ⟨s, hs, (isOfType_eq_isSupertypeOf_iff reachable hs false [worn]).1.mpr (.inr ?_)⟩
    rw [types]
    simpa using isAlias
  · obtain ⟨s, hs, variants⟩ := Option.map_eq_some_iff.mp enchanted
    obtain ⟨t, types, free⟩ := List.map_eq_singleton_iff.mp variants
    refine ⟨s, hs, fun agree => ?_⟩
    have cases := (isOfType_eq_isSupertypeOf_iff reachable hs false [worn]).1.mp agree
    rw [types] at cases
    simp_all

theorem plain_blade_isOfType_of_enchanted :
    let p : Platform := ⟨⟨[1, 20, 4]⟩, false, [⟨"minecraft:diamond_sword", false, 1561⟩],
      [⟨"minecraft:sharpness", []⟩]⟩
    let c := ofRegistry
      ((Registry.empty p).run [.register ⟨⟨"blade", "blade", .a⟩, "diamond_sword", [], []⟩])
    let i : Item := .bare 0 ⟨"minecraft:diamond_sword", false, 1561⟩
    ∃ s, c.resolve? "blade of sharpness 5" = some s ∧ s.isOfType false i = true ∧
      s.isSupertypeOf false (.ofItems [i]) = false := by
  intro p c i
  have tests : (c.resolve? "blade of sharpness 5").map
      (fun s => (s.isOfType false i, s.isSupertypeOf false (.ofItems [i]))) =
      some (true, false) := by decide +kernel
  obtain ⟨s, hs, results⟩ := Option.map_eq_some_iff.mp tests
  rw [Prod.mk.injEq] at results
  exact ⟨s, hs, results⟩

end Context

end ItemLexicon
