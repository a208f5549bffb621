import ItemLexicon.Proofs.InsertionPoints

namespace ItemLexicon.Variation

variable {v u : Variation}

def mergeAll (v : Variation) (ms : List Variation) : Variation := ms.foldl merge v

/-- The variation without a place for another id. -/
def sealed (v : Variation) : Variation := { v with insertPoint := none }

theorem sealed_of_insertPoint (h : v.insertPoint = none) : v.sealed = v := by
  rw [sealed, ← h]

theorem isUseless_iff : u.isUseless = true ↔ u.id = none ∧ u.tags = [] ∧ u.states = [] := by
  simp [isUseless, and_assoc]

theorem merge_of_isUseless (hv : v.IsProper) (hu : u.isUseless = true) : v.merge u = v.sealed := by
  obtain ⟨id, tags, states⟩ := isUseless_iff.mp hu
  have sameTags : Dictionary.merge [] v.tags = v.tags := hv.tags.ofList_eq
  have sameStates : Dictionary.merge [] v.states = v.states := hv.states.ofList_eq
  rw [merge, id, tags, states, sameTags, sameStates]
  rfl

theorem insertId_of_insertPoint (h : v.insertPoint = none) (inserted : Option String) :
    v.insertId inserted =
      (inserted.map fun id => String.ofList (dropHyphen id.toList)).or v.id := by
  cases inserted with
  | none => rfl
  | some id =>
    rw [insertId, h]
    cases v.id <;> rfl

theorem HasOwnPoint.insertPoint_eq_none (h : v.HasOwnPoint) (plain : ¬v.HasHyphen) :
    v.insertPoint = none := by
  rw [Option.eq_none_iff_forall_ne_some]
  intro point hp
  exact plain (h.hasHyphenAt hp).hasHyphen

theorem ne_hyphen_of_read {s : List Char} (h : read s = .ok v) {id : String}
    (hid : v.id = some id) : id.toList ≠ ['-'] := by
  obtain ⟨rest, tags, name, states, -, -, rfl⟩ := read_eq_ok_iff.mp h
  obtain ⟨chars, known, rfl⟩ := Option.map_eq_some_iff.mp hid
  rw [String.toList_ofList]
  rintro rfl
  rw [idOf] at known
  split at known <;> simp_all

theorem insertId_sealed_iff {s : List Char} (h : read s = .ok v) (inserted : Option String) :
    v.sealed.insertId inserted = v.insertId inserted ↔ ¬(v.HasHyphen ∧ inserted ≠ none) := by
  have own := hasOwnPoint_read h
  cases inserted with
  | none => simp [insertId, sealed]
  | some new =>
    by_cases hyphen : v.HasHyphen
    · obtain ⟨point, hp⟩ := own.exists_insertPoint hyphen
      have placed : v.IsPlaced := fun point => own.hasHyphenAt
      obtain ⟨id, before, after, hid, whole, -, inserts⟩ := placed.insertId hp new
      have beside : before ++ after ≠ [] := by
        intro nothing
        obtain ⟨rfl, rfl⟩ := List.append_eq_nil_iff.mp nothing
        exact ne_hyphen_of_read h hid whole
      have longer : (dropHyphen new.toList).length ≠
          (before ++ dropHyphen new.toList ++ after).length := by
        have := List.length_pos_iff.mpr beside
        simp only [List.length_append] at this ⊢
        omega
      rw [insertId_of_insertPoint rfl, inserts]
      simp only [Option.map_some, Option.some_or, Option.some_inj, String.ofList_inj]
      exact iff_of_false (fun same => longer (congrArg List.length same))
        (not_not_intro ⟨hyphen, Option.some_ne_none new⟩)
    · have pointless := own.insertPoint_eq_none hyphen
      rw [insertId_of_insertPoint rfl, insertId_of_insertPoint pointless]
      exact iff_of_true rfl fun both => hyphen both.1

theorem tags_mergeAll (v : Variation) (ms : List Variation) :
    (v.mergeAll ms).tags = ms.foldl (fun tags m => Dictionary.merge m.tags tags) v.tags :=
  (List.foldl_hom tags fun _ _ => rfl).symm

theorem states_mergeAll (v : Variation) (ms : List Variation) :
    (v.mergeAll ms).states = ms.foldl (fun states m => Dictionary.merge m.states states) v.states :=
  (List.foldl_hom states fun _ _ => rfl).symm

theorem isProper_mergeAll (hv : v.IsProper) {ms : List Variation} (h : ∀ m ∈ ms, m.IsProper) :
    (v.mergeAll ms).IsProper := by
  induction ms generalizing v with
  | nil => exact hv
  | cons m ms ih =>
    obtain ⟨first, rest⟩ := List.forall_mem_cons.mp h
    exact ih (first.merge v) rest

theorem insertPoint_mergeAll (h : v.insertPoint = none) (ms : List Variation) :
    (v.mergeAll ms).insertPoint = none := by
  induction ms generalizing v with
  | nil => exact h
  | cons m ms ih => exact ih rfl

theorem id_mergeAll (h : v.insertPoint = none) (ms : List Variation) :
    (v.mergeAll ms).id = (ms.reverse.findSome? fun m =>
      m.id.map fun id => String.ofList (dropHyphen id.toList)).or v.id := by
  induction ms generalizing v with
  | nil => rfl
  | cons m ms ih =>
    rw [mergeAll, List.foldl_cons, ← mergeAll, ih rfl, merge, insertId_of_insertPoint h,
      List.reverse_cons, List.findSome?_append, List.findSome?_singleton, Option.or_assoc]

theorem id_mergeAll_sealed_iff {s : List Char} (h : read s = .ok v) (ms : List Variation) :
    (v.sealed.mergeAll ms).id = (v.mergeAll ms).id ↔ ¬(v.HasHyphen ∧
      ∃ m rest, ms = m :: rest ∧ m.id ≠ none ∧ ∀ r ∈ rest, r.id = none) := by
  cases ms with
  | nil => exact iff_of_true rfl (by simp)
  | cons m rest =>
    rw [mergeAll, mergeAll, List.foldl_cons, List.foldl_cons, ← mergeAll, ← mergeAll,
      id_mergeAll rfl, id_mergeAll rfl]
    by_cases last : ∀ r ∈ rest, r.id = none
    · have nothing : (rest.reverse.findSome? fun r =>
          r.id.map fun id => String.ofList (dropHyphen id.toList)) = none := by
        simpa using last
      rw [nothing, Option.none_or, Option.none_or]
      refine (insertId_sealed_iff h m.id).trans (not_congr (and_congr_right fun _ => ?_))
      constructor
      · exact fun named => ⟨m, rest, rfl, named, last⟩
      · rintro ⟨_, _, whole, named, -⟩
        cases whole
        exact named
    · have found : (rest.reverse.findSome? fun r =>
          r.id.map fun id => String.ofList (dropHyphen id.toList)) ≠ none := by
        simpa using last
      obtain ⟨id, found⟩ := Option.ne_none_iff_exists'.mp found
      rw [found, Option.some_or, Option.some_or]
      refine iff_of_true rfl ?_
      rintro ⟨-, _, _, whole, -, none'⟩
      cases whole
      exact last none'

/-- A variation without data changes nothing wherever it is put in, unless it is put in front of all
others and the only id among these belongs to the first and would have come in the place of a
hyphen. -/
theorem mergeAll_insert_useless {before after : List Variation} (hv : ∃ s, read s = .ok v)
    (hb : ∀ m ∈ before, ∃ s, read s = .ok m) (hu : u.isUseless = true) :
    (v.mergeAll (before ++ u :: after)).tags = (v.mergeAll (before ++ after)).tags ∧
    (v.mergeAll (before ++ u :: after)).states = (v.mergeAll (before ++ after)).states ∧
    ((v.mergeAll (before ++ u :: after)).id = (v.mergeAll (before ++ after)).id ↔
      ¬(before = [] ∧ v.HasHyphen ∧
        ∃ m rest, after = m :: rest ∧ m.id ≠ none ∧ ∀ r ∈ rest, r.id = none)) := by
  obtain ⟨s, hs⟩ := hv
  have proper : (v.mergeAll before).IsProper := isProper_mergeAll (isProper_read hs) fun m hm =>
    (hb m hm).elim fun _ => isProper_read
  have with' : v.mergeAll (before ++ u :: after) = (v.mergeAll before).sealed.mergeAll after := by
    rw [mergeAll, List.foldl_append, List.foldl_cons, ← mergeAll, ← mergeAll,
      merge_of_isUseless proper hu]
  have without : v.mergeAll (before ++ after) = (v.mergeAll before).mergeAll after :=
    List.foldl_append
  rw [with', without]
  refine ⟨?_, ?_, ?_⟩
  · rw [tags_mergeAll, tags_mergeAll]
    rfl
  · rw [states_mergeAll, states_mergeAll]
    rfl
  · cases before with
    | nil =>
      simp only [true_and]
      exact id_mergeAll_sealed_iff hs after
    | cons m before =>
      have used : (v.mergeAll (m :: before)).insertPoint = none := insertPoint_mergeAll rfl before
      rw [sealed_of_insertPoint used]
      simp

theorem mergeAll_insert_useless_of_planks :
    let planks : Variation := ⟨some "minecraft:-planks", some 10, [], []⟩
    let oak : Variation := ⟨some "oak_-", some 4, [], []⟩
    let old : Variation := ⟨some "old_-", some 4, [("Damage", .int 1)], []⟩
    (∃ s, read s = .ok planks) ∧ (∀ m ∈ [oak], ∃ s, read s = .ok m) ∧ empty.isUseless = true ∧
      (planks.mergeAll [oak, empty, old]).tags = [("Damage", .int 1)] ∧
      (planks.mergeAll [oak, empty]).id = some "minecraft:oak_planks" ∧
      (planks.mergeAll [empty, oak, old]).id = (planks.mergeAll [oak, old]).id := by
  intro planks oak old
  have first : ∃ s, read s = .ok planks := ⟨"minecraft:-planks".toList, rfl⟩
  have listed : ∀ m ∈ [oak], ∃ s, read s = .ok m := by
    intro m hm
    rw [List.mem_singleton.mp hm]
    exact ⟨"oak_-".toList, rfl⟩
  have useless : empty.isUseless = true := rfl
  obtain ⟨tags, -, -⟩ := @mergeAll_insert_useless _ _ [oak] [old] first listed useless
  obtain ⟨-, -, behind⟩ := @mergeAll_insert_useless _ _ [oak] [] first listed useless
  obtain ⟨-, -, inFront⟩ := @mergeAll_insert_useless _ _ [] [oak, old] first
    (List.forall_mem_nil _) useless
  refine ⟨first, listed, useless, tags.trans rfl, (behind.mpr (by simp)).trans rfl,
    inFront.mpr ?_⟩
  rintro ⟨-, -, _, _, whole, -, unnamed⟩
  cases whole
  cases unnamed old List.mem_cons_self

theorem useless_variation_takes_hyphen :
    let planks : Variation := ⟨some "minecraft:-planks", some 10, [], []⟩
    let nothing : Variation := ⟨none, none, [], []⟩
    let oak : Variation := ⟨some "oak_-", some 4, [], []⟩
    read "minecraft:-planks".toList = .ok planks ∧ read "-".toList = .ok nothing ∧
      read "oak_-".toList = .ok oak ∧ nothing.isUseless = true ∧
      (planks.mergeAll [oak]).id = some "minecraft:oak_planks" ∧
      (planks.mergeAll [nothing, oak]).id = some "oak_" :=
  ⟨rfl, rfl, rfl, rfl, rfl, rfl⟩

end ItemLexicon.Variation
