import ItemLexicon.Proofs.References

namespace ItemLexicon

namespace Variation

variable {v : Variation}

def HasHyphen (v : Variation) : Prop := ∃ id, v.id = some id ∧ '-' ∈ id.toList

def HasHyphenAt (v : Variation) (point : Nat) : Prop :=
  ∃ id before after, v.id = some id ∧ id.toList = before ++ '-' :: after ∧
    Text.byteLength before = point

/-- The insertion point is the place of a hyphen. -/
def IsPlaced (v : Variation) : Prop := ∀ point, v.insertPoint = some point → v.HasHyphenAt point

theorem HasHyphenAt.hasHyphen {point : Nat} (h : v.HasHyphenAt point) : v.HasHyphen := by
  obtain ⟨id, before, after, hid, same, -⟩ := h
  exact ⟨id, hid, by simp [same]⟩

theorem IsPlaced.insertId (h : v.IsPlaced) {point : Nat} (hp : v.insertPoint = some point)
    (inserted : String) : ∃ id before after, v.id = some id ∧
      id.toList = before ++ '-' :: after ∧ Text.byteLength before = point ∧
      v.insertId (some inserted) =
        some (String.ofList (before ++ dropHyphen inserted.toList ++ after)) := by
  obtain ⟨id, before, after, hid, same, place⟩ := h point hp
  refine ⟨id, before, after, hid, same, place, ?_⟩
  subst place
  have drop : Text.dropBytes 1 ('-' :: after) = after := Text.dropBytes_zero after
  rw [Variation.insertId, hid, hp]
  dsimp only
  rw [same, Text.takeBytes_append, Text.dropBytes_append, drop]

theorem HasHyphen.named (h : v.HasHyphen) : v.id ≠ none := by
  obtain ⟨id, hid, -⟩ := h
  rw [hid]
  exact Option.some_ne_none id

/-- The insertion point is that of the first hyphen of the id, if it has one. -/
def HasOwnPoint (v : Variation) : Prop := v.insertPoint = v.id.bind fun id => hyphenAt id.toList

theorem hasOwnPoint_read {s : List Char} (h : read s = .ok v) : v.HasOwnPoint := by
  obtain ⟨rest, tags, name, states, -, -, rfl⟩ := read_eq_ok_iff.mp h
  cases hid : idOf name with
  | none => rfl
  | some id => simp [HasOwnPoint]

namespace HasOwnPoint

theorem hasHyphenAt (h : v.HasOwnPoint) {point : Nat} (hp : v.insertPoint = some point) :
    v.HasHyphenAt point := by
  rw [h] at hp
  obtain ⟨id, hid, found⟩ := Option.bind_eq_some_iff.mp hp
  obtain ⟨before, after, whole, -, place⟩ := hyphenAt_eq_some_iff.mp found
  exact ⟨id, before, after, hid, whole, place⟩

theorem exists_insertPoint (h : v.HasOwnPoint) (hyphen : v.HasHyphen) :
    ∃ point, v.insertPoint = some point := by
  obtain ⟨id, hid, member⟩ := hyphen
  obtain ⟨before, after, same, absent⟩ := List.eq_append_cons_of_mem member
  rw [h, hid, Option.bind_some]
  exact ⟨_, hyphenAt_eq_some_iff.mpr ⟨before, after, same, absent, rfl⟩⟩

end HasOwnPoint

end Variation

namespace Expansion

section Combinations

variable {ps : List Pick}

theorem id_overlay (ps : List Pick) :
    (overlay ps).id = ps.reverse.findSome? fun p => p.variation.id :=
  (read_foldl_absorb (fun _ _ _ => rfl) .empty).trans (Option.or_none ..)

theorem insertPoint_overlay (ps : List Pick) :
    (overlay ps).insertPoint = ps.reverse.findSome? fun p => p.variation.insertPoint :=
  (read_foldl_absorb (fun _ _ _ => rfl) .empty).trans (Option.or_none ..)

theorem findSome?_reverse_append_cons {α : Type} {f : Pick → Option α} {after : List Pick}
    (none : ∀ r ∈ after, f r = none) (before : List Pick) (q : Pick) :
    (before ++ q :: after).reverse.findSome? f = (f q).or (before.reverse.findSome? f) := by
  have skipped : after.reverse.findSome? f = .none :=
    List.findSome?_eq_none_iff.mpr fun r hr => none r (List.mem_reverse.mp hr)
  rw [List.reverse_append, List.reverse_cons, List.findSome?_append, List.findSome?_append, skipped,
    Option.none_or]
  cases h : f q <;> simp [h]

theorem overlay_of_last (before : List Pick) {after : List Pick} {q : Pick}
    (own : ∀ r ∈ after, r.variation.HasOwnPoint) (named : q.variation.id ≠ none)
    (unnamed : ∀ r ∈ after, r.variation.id = none) :
    (overlay (before ++ q :: after)).id = q.variation.id ∧
      (overlay (before ++ q :: after)).insertPoint =
        q.variation.insertPoint.or (overlay before).insertPoint := by
  have pointless : ∀ r ∈ after, r.variation.insertPoint = none := fun r hr => by
    rw [own r hr, unnamed r hr]
    rfl
  rw [id_overlay, insertPoint_overlay, insertPoint_overlay, findSome?_reverse_append_cons unnamed,
    findSome?_reverse_append_cons pointless]
  obtain ⟨id, hid⟩ := Option.ne_none_iff_exists'.mp named
  exact ⟨by rw [hid]; rfl, rfl⟩

theorem exists_last_named {p : Pick} (hp : p ∈ ps) (named : p.variation.id ≠ none) :
    ∃ before q after, ps = before ++ q :: after ∧ q.variation.id ≠ none ∧
      ∀ r ∈ after, r.variation.id = none := by
  have found : (ps.reverse.findSome? fun p => p.variation.id).isSome = true :=
    List.findSome?_isSome_iff.mpr
      ⟨p, List.mem_reverse.mpr hp, Option.isSome_iff_ne_none.mpr named⟩
  obtain ⟨id, found⟩ := Option.isSome_iff_exists.mp found
  obtain ⟨after, q, before, same, hq, unnamed⟩ := List.findSome?_eq_some_iff.mp found
  refine ⟨before.reverse, q, after.reverse, ?_, by simp [hq], by simpa using unnamed⟩
  simpa using congrArg List.reverse same

theorem isPlaced_overlay_iff (own : ∀ p ∈ ps, p.variation.HasOwnPoint) :
    (overlay ps).IsPlaced ↔ ∀ before q after, ps = before ++ q :: after → q.variation.id ≠ none →
      (∀ r ∈ after, r.variation.id = none) → (∃ p ∈ ps, p.variation.HasHyphen) →
      q.variation.HasHyphen := by
  constructor
  · rintro placed before q after rfl named unnamed ⟨p, hp, hyphen⟩
    obtain ⟨sameId, -⟩ := overlay_of_last before (fun r hr => own r (by simp [hr])) named unnamed
    obtain ⟨point, known⟩ := (own p hp).exists_insertPoint hyphen
    have found : (overlay (before ++ q :: after)).insertPoint.isSome = true := by
      rw [insertPoint_overlay, List.findSome?_isSome_iff]
      exact ⟨p, List.mem_reverse.mpr hp, by rw [known]; rfl⟩
    obtain ⟨point', found⟩ := Option.isSome_iff_exists.mp found
    obtain ⟨id, hid, member⟩ := (placed point' found).hasHyphen
    exact ⟨id, sameId.symm.trans hid, member⟩
  · intro right point known
    -- The insertion point is that of some entry with a hyphen, so the rightmost id has one too.
    obtain ⟨p, hp, found⟩ : ∃ p ∈ ps, p.variation.insertPoint = some point := by
      rw [insertPoint_overlay] at known
      simpa using List.exists_of_findSome?_eq_some known
    have hyphen := ((own p hp).hasHyphenAt found).hasHyphen
    obtain ⟨before, q, after, rfl, named, unnamed⟩ := exists_last_named hp hyphen.named
    obtain ⟨sameId, samePoint⟩ :=
      overlay_of_last before (fun r hr => own r (by simp [hr])) named unnamed
    have ownPoint := own q (by simp)
    obtain ⟨point', place⟩ :=
      ownPoint.exists_insertPoint (right before q after rfl named unnamed ⟨p, hp, hyphen⟩)
    rw [place, Option.some_or, known] at samePoint
    cases samePoint
    obtain ⟨id, before, after, hid, rest⟩ := ownPoint.hasHyphenAt place
    exact ⟨id, before, after, sameId.trans hid, rest⟩

end Combinations

theorem exists_find_of_mem_slots {find : String → Option VariationGroup} {c : Cutter}
    {s : List Char} {g : VariationGroup} (hg : .group g ∈ (slots find c s).1) :
    ∃ key, find key = some g := by
  induction s generalizing c with
  | nil =>
    obtain ⟨n, before, opened⟩ := c
    cases opened <;> simp [slots] at hg
  | cons d s ih =>
    by_cases closes : d = '\x7d'
    · subst closes
      obtain ⟨n, before, opened⟩ := c
      rw [slots] at hg
      cases opened with
      | none => exact ih hg
      | some o =>
        dsimp only at hg
        cases known : find (String.ofList (o.2 ++ ['\x7d'])) with
        | none =>
          rw [known] at hg
          exact ih (by simpa using hg)
        | some g' =>
          rw [known] at hg
          simp only [List.mem_cons, reduceCtorEq, false_or, Slot.group.injEq] at hg
          rcases hg with rfl | hg
          · exact ⟨_, known⟩
          · exact ih hg
    · rw [Cutter.slots_read closes] at hg
      exact ih hg

theorem filterMap_group?_slots (rs : List Reel) :
    (rs.map Reel.slot).filterMap Slot.group? = (picks rs).map Pick.group := by
  induction rs with
  | nil => rfl
  | cons r rs ih =>
    cases r with
    | text s => exact ih
    | entry p => exact congrArg (p.group :: ·) ih

theorem exists_overlay_of_mem_ofName {find : String → Option VariationGroup} {name n : List Char}
    {v : Variation} (hv : (n, v) ∈ (ofName find name).1) :
    ∃ ps : List Pick, ps.map Pick.group = (slots find ⟨0, [], none⟩ name).1.filterMap Slot.group? ∧
      v = overlay ps := by
  have entries : (ofName find name).1 = ofSlots (slots find ⟨0, [], none⟩ name).1 := rfl
  rw [entries] at hv
  generalize (slots find ⟨0, [], none⟩ name).1 = ss at hv ⊢
  have sizes : ∀ g, .group g ∈ ss → 0 < g.size := by
    intro g hg
    apply Nat.pos_of_ne_zero
    intro empty
    rw [(ofSlots_eq_nil_iff ss).mpr ⟨g, hg, empty⟩] at hv
    cases hv
  obtain ⟨rs, first, same, -⟩ := exists_first sizes
  rw [ofSlots_eq_collect first] at hv
  obtain ⟨before, q, after, all, entry, -⟩ := exists_last_of_mem_collect hv
  obtain ⟨slots, pass⟩ := pass_of_mem (all ▸ (by simp) : q ∈ passes (volume rs) rs)
  cases entry
  refine ⟨picks q.1, ?_, ?_⟩
  · rw [← filterMap_group?_slots, slots, same]
  · rw [pass, variation_run]
    rfl

/-- The insertion point of an expanded variation is the place of a hyphen of its id, unless the
combination has an entry with a hyphen while its rightmost id has none. -/
theorem isPlaced_iff_of_mem_ofName {find : String → Option VariationGroup} {name n : List Char}
    {v : Variation}
    (entries : ∀ key g, find key = some g → ∀ e ∈ g.entries, ∃ s, Variation.read s = .ok e.2)
    (hv : (n, v) ∈ (ofName find name).1) :
    ∃ ps : List Pick, ps.map Pick.group = (slots find ⟨0, [], none⟩ name).1.filterMap Slot.group? ∧
      v = overlay ps ∧
      (v.IsPlaced ↔ ∀ before q after, ps = before ++ q :: after → q.variation.id ≠ none →
        (∀ r ∈ after, r.variation.id = none) → (∃ p ∈ ps, p.variation.HasHyphen) →
        q.variation.HasHyphen) ∧
      (v.IsPlaced → ∀ point, v.insertPoint = some point → ∀ inserted, ∃ id before after,
        v.id = some id ∧ id.toList = before ++ '-' :: after ∧ Text.byteLength before = point ∧
        v.insertId (some inserted) =
          some (String.ofList (before ++ Variation.dropHyphen inserted.toList ++ after))) := by
  obtain ⟨ps, groups, rfl⟩ := exists_overlay_of_mem_ofName hv
  have own : ∀ p ∈ ps, p.variation.HasOwnPoint := by
    intro p hp
    have listed : p.group ∈ ps.map Pick.group := List.mem_map_of_mem hp
    rw [groups, Slot.mem_filterMap_group?] at listed
    obtain ⟨key, known⟩ := exists_find_of_mem_slots listed
    obtain ⟨s, read⟩ := entries key p.group known _ (List.get_mem ..)
    exact Variation.hasOwnPoint_read read
  exact ⟨ps, groups, rfl, isPlaced_overlay_iff own, fun placed point => placed.insertId⟩

theorem isPlaced_iff_of_mem_ofName_of_oak :
    let oak : Variation := ⟨some "oak_-", some 4, [], []⟩
    let find (key : String) : Option VariationGroup :=
      if key = "\x7bwood\x7d" then some ⟨[("oak", oak)]⟩ else none
    let name := "\x7bwood\x7d boat".toList
    (∀ key g, find key = some g → ∀ e ∈ g.entries, ∃ s, Variation.read s = .ok e.2) ∧
      ("oak boat".toList, oak) ∈ (ofName find name).1 ∧ oak.IsPlaced ∧
      oak.insertId (some "dark-") = some "oak_dark" := by
  intro oak find name
  have entries : ∀ key g, find key = some g → ∀ e ∈ g.entries,
      ∃ s, Variation.read s = .ok e.2 := by
    intro key g known e he
    simp only [find] at known
    split at known
    · cases known
      rw [List.mem_singleton.mp he]
      exact ⟨"oak_-".toList, rfl⟩
    · cases known
  have parts : (slots find ⟨0, [], none⟩ name).1 =
      [.text [], .group ⟨[("oak", oak)]⟩, .text " boat".toList] := by
    simp [slots, find, name]
  have run : ofSlots [.text [], .group ⟨[("oak", oak)]⟩, .text " boat".toList] =
      [("oak boat".toList, oak)] := by
    subst oak
    rfl
  have all : (ofName find name).1 = [("oak boat".toList, oak)] := (congrArg ofSlots parts).trans run
  have named : ("oak boat".toList, oak) ∈ (ofName find name).1 := by
    simp only [all, List.mem_singleton]
  obtain ⟨ps, groups, -, placed, -⟩ := isPlaced_iff_of_mem_ofName entries named
  refine ⟨entries, named, placed.mpr fun before q after whole _ _ _ => ?_, rfl⟩
  have listed : q.group ∈ ps.map Pick.group := List.mem_map_of_mem (by simp [whole])
  have known : (slots find ⟨0, [], none⟩ name).1.filterMap Slot.group? = [⟨[("oak", oak)]⟩] :=
    (congrArg (List.filterMap Slot.group?) parts).trans rfl
  rw [groups, known, List.mem_singleton] at listed
  have entry : q.group.entries.get q.position ∈ q.group.entries := List.get_mem ..
  simp only [listed, List.mem_singleton] at entry
  exact ⟨"oak_-", congrArg (fun e => e.2.id) entry, by decide⟩

theorem insertPoint_outlives_id :
    let find (key : String) : Option VariationGroup :=
      if key = "\x7ba\x7d" then some ⟨[("x", ⟨some "oak_-", some 4, [], []⟩)]⟩
      else if key = "\x7bb\x7d" then some ⟨[("y", ⟨some "stone", none, [], []⟩)]⟩
      else none
    let v : Variation := ⟨some "stone", some 4, [], []⟩
    (∀ key g, find key = some g → ∀ e ∈ g.entries, ∃ s, Variation.read s = .ok e.2) ∧
      ("xy".toList, v) ∈ (ofName find "\x7ba\x7d\x7bb\x7d".toList).1 ∧ ¬v.IsPlaced := by
  intro find v
  have parts : (slots find ⟨0, [], none⟩ "\x7ba\x7d\x7bb\x7d".toList).1 =
      [.text [], .group ⟨[("x", ⟨some "oak_-", some 4, [], []⟩)]⟩, .text [],
        .group ⟨[("y", ⟨some "stone", none, [], []⟩)]⟩, .text []] := by
    simp [slots, find]
  have all : (ofName find "\x7ba\x7d\x7bb\x7d".toList).1 = [("xy".toList, v)] := by
    subst v
    exact (congrArg ofSlots parts).trans rfl
  refine ⟨?_, by simp only [all, List.mem_singleton], fun placed => ?_⟩
  · intro key g known e he
    simp only [find] at known
    split at known
    · cases known
      rw [List.mem_singleton.mp he]
      exact ⟨"oak_-".toList, rfl⟩
    · split at known
      · cases known
        rw [List.mem_singleton.mp he]
        exact ⟨"stone".toList, rfl⟩
      · cases known
  · obtain ⟨id, hid, member⟩ := (placed 4 rfl).hasHyphen
    cases hid
    exact absurd member (by decide)

end Expansion

end ItemLexicon
