import ItemLexicon.Platform.Table

namespace ItemLexicon

theorem mem_namespaced {id : String} {c : Char} (h : c ∈ (namespaced id).toList) :
    c ∈ "minecraft:".toList ∨ c ∈ id.toList := by
  rw [namespaced] at h
  split at h
  · exact .inr h
  · rw [String.toList_append] at h
    exact List.mem_append.mp h

theorem contains_namespaced (id : String) : ':' ∈ (namespaced id).toList := by
  rw [namespaced]
  split
  · rename_i h
    exact List.contains_iff_mem.mp h
  · simp [String.toList_append]

theorem lowercase_namespaced {id : String} (h : Text.lowercase id = id) :
    Text.lowercase (namespaced id) = namespaced id := by
  rw [Text.lowercase_eq_self_iff] at h ⊢
  intro c hc
  rcases mem_namespaced hc with hc | hc
  · have small : ∀ c ∈ "minecraft:".toList, Text.IsSmall c := Text.forall_of_all (by decide)
    exact small c hc
  · exact h c hc

namespace Platform

variable {p : Platform} {rows : List MaterialInfo}

/-- The materials are rows of a table under their full ids, and no two have the same one. -/
structure IsTable (p : Platform) (rows : List MaterialInfo) : Prop where
  distinct : (p.materials.map MaterialInfo.id).Nodup
  listed : ∀ info ∈ p.materials, ∃ row ∈ rows, info = { row with id := namespaced row.id }

theorem IsTable.addMaterial (h : p.IsTable rows) {row : MaterialInfo} (hr : row ∈ rows) :
    (p.addMaterial row).IsTable rows := by
  rw [Platform.addMaterial]
  simp only
  split
  · exact h
  · rename_i new
    refine ⟨?_, ?_⟩
    · rw [List.map_append, List.map_singleton]
      refine List.nodup_append.mpr ⟨h.distinct, by simp, ?_⟩
      rintro a ha b hb rfl
      obtain ⟨info, hi, hid⟩ := List.mem_map.mp ha
      refine new (List.any_eq_true.mpr ⟨info, hi, ?_⟩)
      rw [hid, List.mem_singleton.mp hb, beq_self_eq_true]
    · intro info hi
      rcases List.mem_append.mp hi with hi | hi
      · exact h.listed info hi
      · exact ⟨row, hr, List.mem_singleton.mp hi⟩

theorem IsTable.addMaterials (h : p.IsTable rows) {more : List MaterialInfo} (hm : more ⊆ rows) :
    (more.foldl Platform.addMaterial p).IsTable rows := by
  induction more generalizing p with
  | nil => exact h
  | cons row more ih =>
    exact ih (h.addMaterial (hm List.mem_cons_self)) (List.subset_of_cons_subset hm)

theorem IsTable.addEnchantments (h : p.IsTable rows) (es : List EnchantmentInfo) :
    (es.foldl addEnchantment p).IsTable rows := by
  induction es generalizing p with
  | nil => exact h
  | cons e es ih => exact ih ⟨h.distinct, h.listed⟩

theorem isTable_build (version : Version) (legacy : Bool) (rows : List MaterialInfo)
    (es : List EnchantmentInfo) : (build version legacy rows es).IsTable rows := by
  have none : { ofVersion version with legacy := legacy }.IsTable rows :=
    ⟨List.Pairwise.nil, List.forall_mem_nil _⟩
  exact (none.addMaterials (List.Subset.refl rows)).addEnchantments es

theorem IsTable.contains_id (h : p.IsTable rows) {m : Nat} {info : MaterialInfo}
    (hm : p.info? m = some info) : ':' ∈ info.id.toList := by
  obtain ⟨row, -, rfl⟩ := h.listed info (List.mem_of_getElem? hm)
  exact contains_namespaced row.id

theorem IsTable.material?_eq_some_iff (h : p.IsTable rows) {id : String} {m : Nat} :
    p.material? id = some m ↔
      ∃ info, p.info? m = some info ∧ info.id = namespaced (Text.lowercase id) := by
  rw [material?, List.findIdx?_eq_some_iff_getElem]
  constructor
  · rintro ⟨bound, same, -⟩
    exact ⟨_, List.getElem?_eq_getElem bound, eq_of_beq same⟩
  · rintro ⟨info, hm, same⟩
    obtain ⟨bound, at_m⟩ := List.getElem?_eq_some_iff.mp hm
    refine ⟨bound, by rw [at_m, same, beq_self_eq_true], fun j hj same' => ?_⟩
    have apart := List.pairwise_iff_getElem.mp (List.pairwise_map.mp h.distinct) j m
      (Nat.lt_trans hj bound) bound hj
    exact apart ((eq_of_beq same').trans (same.symm.trans (congrArg MaterialInfo.id at_m.symm)))

theorem IsTable.material?_id (h : p.IsTable rows)
    (lower : ∀ row ∈ rows, Text.lowercase row.id = row.id) {m : Nat} {info : MaterialInfo}
    (hm : p.info? m = some info) : p.material? info.id = some m := by
  have key : namespaced (Text.lowercase info.id) = info.id := by
    obtain ⟨row, hr, rfl⟩ := h.listed info (List.mem_of_getElem? hm)
    rw [lowercase_namespaced (lower row hr), namespaced_namespaced]
  exact h.material?_eq_some_iff.mpr ⟨info, hm, key.symm⟩

theorem mem_ids_addMaterial (p : Platform) (row : MaterialInfo) (id : String) :
    id ∈ (p.addMaterial row).materials.map MaterialInfo.id ↔
      id ∈ p.materials.map MaterialInfo.id ∨ id = namespaced row.id := by
  rw [Platform.addMaterial]
  simp only
  split
  · rename_i taken
    obtain ⟨info, hi, same⟩ := List.any_eq_true.mp taken
    refine ⟨.inl, fun either => either.elim (fun old => old) ?_⟩
    rintro rfl
    exact List.mem_map.mpr ⟨info, hi, eq_of_beq same⟩
  · rw [List.map_append, List.map_singleton, List.mem_append, List.mem_singleton]

theorem mem_ids_addMaterials (p : Platform) (rows : List MaterialInfo) (id : String) :
    id ∈ (rows.foldl Platform.addMaterial p).materials.map MaterialInfo.id ↔
      id ∈ p.materials.map MaterialInfo.id ∨ ∃ row ∈ rows, id = namespaced row.id := by
  induction rows generalizing p with
  | nil => simp
  | cons row rows ih =>
    rw [List.foldl_cons, ih, mem_ids_addMaterial, or_assoc]
    simp only [List.mem_cons, exists_eq_or_imp]

theorem materials_addEnchantments (p : Platform) (es : List EnchantmentInfo) :
    (es.foldl addEnchantment p).materials = p.materials := by
  induction es generalizing p with
  | nil => rfl
  | cons e es ih => exact ih (p.addEnchantment e)

theorem mem_ids_build (version : Version) (legacy : Bool) (rows : List MaterialInfo)
    (es : List EnchantmentInfo) (id : String) :
    id ∈ (build version legacy rows es).materials.map MaterialInfo.id ↔
      ∃ row ∈ rows, id = namespaced row.id := by
  rw [build, materials_addEnchantments, mem_ids_addMaterials]
  exact or_iff_right List.not_mem_nil

end Platform

end ItemLexicon
