import ItemLexicon.Item.Snapshot
import ItemLexicon.Proofs.MaterialTable
import ItemLexicon.Proofs.SmallLetters
import Mathlib.Logic.ExistsUnique

namespace ItemLexicon

theorem namespaced_of_colon {id : String} (h : ':' ∈ id.toList) : namespaced id = id := by
  rw [namespaced, if_pos (List.contains_iff_mem.mpr h)]

theorem namespaced_lowercase_of_colon {id : String} (h : ':' ∈ id.toList) :
    namespaced (Text.lowercase id) = Text.lowercase id := by
  apply namespaced_of_colon
  rw [Text.lowercase, String.toList_ofList, Text.mem_lower_iff (by decide)]
  exact h

namespace Platform

variable {p : Platform} {rows : List MaterialInfo} {m : Nat} {info : MaterialInfo}

theorem IsTable.material?_id_iff (h : p.IsTable rows) (hm : p.info? m = some info) :
    p.material? info.id = some m ↔ Text.lowercase info.id = info.id := by
  rw [h.material?_eq_some_iff, namespaced_lowercase_of_colon (h.contains_id hm)]
  constructor
  · rintro ⟨info', hm', same⟩
    rw [hm, Option.some_inj] at hm'
    subst hm'
    exact same.symm
  · intro same
    exact ⟨info, hm, same.symm⟩

theorem IsTable.material?_id_eq_none_iff (h : p.IsTable rows) (hm : p.info? m = some info) :
    p.material? info.id = none ↔ Text.lowercase info.id ∉ p.materials.map MaterialInfo.id := by
  rw [← Option.not_isSome_iff_eq_none, Option.isSome_iff_exists, not_congr]
  simp only [h.material?_eq_some_iff, namespaced_lowercase_of_colon (h.contains_id hm),
    List.mem_map]
  constructor
  · rintro ⟨k, info', hk, same⟩
    exact ⟨info', List.mem_of_getElem? hk, same⟩
  · rintro ⟨info', member, same⟩
    obtain ⟨k, hk⟩ := List.getElem?_of_mem member
    exact ⟨k, info', hk, same⟩

theorem IsTable.restore_ofItem_cases (h : p.IsTable rows) (hm : p.info? m = some info) {i : Item}
    (hi : i.material = some m) :
    match p.material? info.id with
    | none => ItemSnapshot.restore p (.ofItem p i) = .error info.id
    | some k => ∃ j, ItemSnapshot.restore p (.ofItem p i) = .ok j ∧ j.material = some k := by
  have material : (ItemSnapshot.ofItem p i).material = info.id := by
    simp [ItemSnapshot.ofItem, hi, hm]
  have notWildcard : info.id ≠ ItemSnapshot.wildcard := by
    intro same
    have colon := h.contains_id hm
    rw [same] at colon
    exact absurd colon (by decide)
  rw [ItemSnapshot.restore, material, if_neg notWildcard]
  cases p.material? info.id with
  | none => rfl
  | some k => exact ⟨_, rfl, rfl⟩

theorem IsTable.exists_restore_iff (h : p.IsTable rows) (hm : p.info? m = some info) {i : Item}
    (hi : i.material = some m) :
    (∃ j, ItemSnapshot.restore p (.ofItem p i) = .ok j ∧ j.material = some m) ↔
      p.material? info.id = some m := by
  have cases' := h.restore_ofItem_cases hm hi
  cases found : p.material? info.id with
  | none =>
    rw [found] at cases'
    simp [cases']
  | some k =>
    rw [found] at cases'
    obtain ⟨j, restored, material⟩ := cases'
    simp [restored, material]

theorem IsTable.restore_eq_error_iff (h : p.IsTable rows) (hm : p.info? m = some info) {i : Item}
    (hi : i.material = some m) :
    ItemSnapshot.restore p (.ofItem p i) = .error info.id ↔ p.material? info.id = none := by
  have cases' := h.restore_ofItem_cases hm hi
  cases found : p.material? info.id with
  | none =>
    rw [found] at cases'
    exact iff_of_true cases' rfl
  | some k =>
    rw [found] at cases'
    obtain ⟨j, restored, -⟩ := cases'
    simp [restored]

theorem IsTable.existsUnique_number (h : p.IsTable rows) {id : String}
    (listed : id ∈ p.materials.map MaterialInfo.id) :
    ∃! m, m ∈ List.range p.materials.length ∧ (p.info? m).map MaterialInfo.id = some id := by
  have number (m : Nat) :
      (p.info? m).map MaterialInfo.id = (p.materials.map MaterialInfo.id)[m]? :=
    List.getElem?_map.symm
  simp only [number, List.mem_range]
  obtain ⟨m, hm⟩ := List.getElem?_of_mem listed
  have inside := (List.getElem?_eq_some_iff.mp hm).1
  refine ⟨m, ⟨?_, hm⟩, fun k both => ?_⟩
  · rwa [List.length_map] at inside
  · exact ((List.getElem?_inj inside h.distinct).mp (hm.trans both.2.symm)).symm

/-- The materials of a table are numbered without repetition, and one is found by the id that it has
just if lower-casing keeps the id. -/
theorem material?_id_build (version : Version) (legacy : Bool) (rows : List MaterialInfo)
    (es : List EnchantmentInfo) :
    let p := build version legacy rows es
    (∀ row ∈ rows, ∃! m, m ∈ List.range p.materials.length ∧
      (p.info? m).map MaterialInfo.id = some (namespaced row.id)) ∧
    ∀ m ∈ List.range p.materials.length, ∃ info, p.info? m = some info ∧
      (∃ row ∈ rows, info = { row with id := namespaced row.id }) ∧
      (p.material? info.id = some m ↔ Text.lowercase info.id = info.id) ∧
      ∀ i : Item, i.material = some m →
        ((∃ j, ItemSnapshot.restore p (.ofItem p i) = .ok j ∧ j.material = some m) ↔
          Text.lowercase info.id = info.id) ∧
        (ItemSnapshot.restore p (.ofItem p i) = .error info.id ↔
          ∀ row ∈ rows, Text.lowercase info.id ≠ namespaced row.id) := by
  intro p
  have table : p.IsTable rows := isTable_build version legacy rows es
  have ids : ∀ id, id ∈ p.materials.map MaterialInfo.id ↔ ∃ row ∈ rows, id = namespaced row.id :=
    mem_ids_build version legacy rows es
  refine ⟨fun row hr => table.existsUnique_number ((ids _).mpr ⟨row, hr, rfl⟩), fun m hm => ?_⟩
  obtain ⟨info, known⟩ : ∃ info, p.info? m = some info :=
    ⟨_, List.getElem?_eq_getElem (List.mem_range.mp hm)⟩
  have found := table.material?_id_iff known
  refine ⟨info, known, table.listed info (List.mem_of_getElem? known), found, fun i hi => ⟨?_, ?_⟩⟩
  · exact (table.exists_restore_iff known hi).trans found
  · rw [table.restore_eq_error_iff known hi, table.material?_id_eq_none_iff known, ids]
    simp only [not_exists, not_and, ne_eq]

theorem material?_id_build_of_sword :
    let rows : List MaterialInfo :=
      [⟨"Iron_sword", false, 250⟩, ⟨"shield", false, 336⟩, ⟨"minecraft:shield", false, 0⟩]
    let p := build ⟨[1, 20, 4]⟩ false rows []
    let shield := Item.bare 1 ⟨"minecraft:shield", false, 336⟩
    0 ∈ List.range p.materials.length ∧ 1 ∈ List.range p.materials.length ∧
      shield.material = some 1 ∧ p.material? "minecraft:Iron_sword" ≠ some 0 ∧
      p.material? "minecraft:shield" = some 1 ∧
      ∃ j, ItemSnapshot.restore p (.ofItem p shield) = .ok j ∧ j.material = some 1 := by
  intro rows p shield
  obtain ⟨-, listed⟩ := material?_id_build ⟨[1, 20, 4]⟩ false rows []
  have first : 0 ∈ List.range p.materials.length := by decide
  have second : 1 ∈ List.range p.materials.length := by decide
  obtain ⟨_, known, -, found, -⟩ := listed 0 first
  obtain rfl := Option.some.inj known
  obtain ⟨_, known', -, found', restored⟩ := listed 1 second
  obtain rfl := Option.some.inj known'
  have kept : Text.lowercase "minecraft:shield" = "minecraft:shield" := by decide +kernel
  refine ⟨first, second, rfl, ?_, found'.mpr kept, (restored shield rfl).1.mpr kept⟩
  exact fun same => absurd (found.mp same) (by decide +kernel)

theorem capital_id_is_not_found :
    let p := build ⟨[1, 20, 4]⟩ false [⟨"Stone", true, 0⟩] []
    (p.info? 0).map MaterialInfo.id = some "minecraft:Stone" ∧
      p.material? "minecraft:Stone" = none ∧
      ItemSnapshot.restore p (.ofItem p (.bare 0 ⟨"minecraft:Stone", true, 0⟩)) =
        .error "minecraft:Stone" := by
  intro p
  have table : p.IsTable [⟨"Stone", true, 0⟩] := isTable_build _ _ _ _
  have known : p.info? 0 = some ⟨"minecraft:Stone", true, 0⟩ := by decide
  have absent : p.material? "minecraft:Stone" = none := by decide +kernel
  exact ⟨by decide, absent, (table.restore_eq_error_iff known rfl).mpr absent⟩

end Platform

end ItemLexicon
