import ItemLexicon.Proofs.MaterialTable
import ItemLexicon.Proofs.MetadataEncoding
import ItemLexicon.Selector.Snapshot

namespace ItemLexicon

namespace Item

/-- Items of the materials of a platform, and what setting their durability, their form, their
metadata or the match of plain items makes of them. -/
inductive IsBuilt (p : Platform) : Item → Prop
  | ofDefinition {m info tags} (known : p.info? m = some info) (ht : Tags.IsProper tags)
      (states : States) : IsBuilt p (.ofDefinition m info tags states)
  | ofStack {m info tags} (known : p.info? m = some info) (damage : Nat)
      (ht : Tags.IsProper tags) : IsBuilt p (.ofStack m info damage tags)
  | ofBlock {m info} (known : p.info? m = some info) (states : States) :
      IsBuilt p (.ofBlock m info states)
  | setDurability {i} (h : IsBuilt p i) (durability : Nat) : IsBuilt p (i.setDurability durability)
  | setPlain {i} (h : IsBuilt p i) (plain : Bool) : IsBuilt p (i.setPlain plain)
  | setItemForm {i} (h : IsBuilt p i) (itemForm : Bool) : IsBuilt p (i.setItemForm itemForm)
  | setMetadata {i tags} (h : IsBuilt p i) (ht : Tags.IsProper tags) :
      IsBuilt p (i.setMetadata (.ofTags tags))

variable {p : Platform} {i : Item}

theorem IsBuilt.exists_info? (h : i.IsBuilt p) :
    ∃ m info, i.material = some m ∧ p.info? m = some info := by
  induction h with
  | ofDefinition known => exact ⟨_, _, rfl, known⟩
  | ofStack known => exact ⟨_, _, rfl, known⟩
  | ofBlock known => exact ⟨_, _, rfl, known⟩
  | setDurability _ _ ih => exact ih
  | setPlain _ _ ih => exact ih
  | setItemForm _ _ ih => exact ih
  | setMetadata _ _ ih => exact ih

theorem isProper_cutDamage {tags : Tags} (h : tags.IsProper) : (cutDamage tags).2.IsProper := by
  rw [cutDamage]
  split
  · exact h.erase _
  · exact h

theorem IsBuilt.isRead_metadata (h : i.IsBuilt p) : i.metadata.IsRead := by
  induction h with
  | @ofDefinition m info tags known ht states =>
    show (if (cutDamage tags).2.isEmpty then Metadata.empty else .ofTags (cutDamage tags).2).IsRead
    split
    · exact Metadata.isRead_empty
    · exact ⟨_, isProper_cutDamage ht, rfl⟩
  | ofStack known damage ht => exact ⟨_, ht, rfl⟩
  | ofBlock known states => exact Metadata.isRead_empty
  | setDurability _ _ ih => exact ih
  | setPlain _ _ ih => exact ih
  | setItemForm _ _ ih => exact ih
  | setMetadata _ ht _ => exact ⟨_, ht, rfl⟩

end Item

namespace ItemSnapshot

theorem flagsOf_mod (i : Item) : (flagsOf i % 2 == 1) = i.durabilityGiven := by
  rw [flagsOf]
  cases i.durabilityGiven <;> cases i.tagsGiven <;> rfl

theorem flagsOf_div (i : Item) : (flagsOf i / 2 % 2 == 1) = i.tagsGiven := by
  rw [flagsOf]
  cases i.durabilityGiven <;> cases i.tagsGiven <;> rfl

variable {p : Platform} {rows : List MaterialInfo}

theorem restore_ofItem (table : p.IsTable rows)
    (lower : ∀ row ∈ rows, Text.lowercase row.id = row.id) {i : Item} (h : i.IsBuilt p) :
    restore p (ofItem p i) = .ok i := by
  obtain ⟨m, info, hm, known⟩ := h.exists_info?
  have material : (ofItem p i).material = info.id := by simp [ofItem, hm, known]
  have notWildcard : info.id ≠ wildcard := by
    intro same
    have colon := table.contains_id known
    rw [same] at colon
    exact absurd colon (by decide)
  have block : (i.block.map BlockValues.states).map
      (fun states => ⟨states, i.block.any (·.isDefault)⟩) = i.block := by
    cases i.block <;> rfl
  rw [restore, material, if_neg notWildcard, table.material?_id lower known]
  simp only [ofItem, block, flagsOf_mod, flagsOf_div, h.isRead_metadata.ofTags_toTags, ← hm]

theorem mapM_restore_map_ofItem (table : p.IsTable rows)
    (lower : ∀ row ∈ rows, Text.lowercase row.id = row.id) {items : List Item}
    (h : ∀ i ∈ items, i.IsBuilt p) : (items.map (ofItem p)).mapM (restore p) = .ok items := by
  induction items with
  | nil => rfl
  | cons i items ih =>
    obtain ⟨first, rest⟩ := List.forall_mem_cons.mp h
    rw [List.map_cons, List.mapM_cons, restore_ofItem table lower first, ih rest]
    rfl

end ItemSnapshot

/-- On a platform with ids in lower case, items and selectors of such are restored as they were
stored. -/
theorem Platform.restore_build {rows : List MaterialInfo}
    (lower : ∀ row ∈ rows, Text.lowercase row.id = row.id) (version : Version) (legacy : Bool)
    (es : List EnchantmentInfo) :
    let p := build version legacy rows es
    (∀ i : Item, i.IsBuilt p → ItemSnapshot.restore p (.ofItem p i) = .ok i) ∧
      ∀ s : Selector, (∀ i ∈ s.types, i.IsBuilt p) →
        SelectorSnapshot.restore p (.ofSelector p s) =
          .ok (.ofSelection ⟨s.types, s.amount, s.all, none⟩) := by
  intro p
  have table : p.IsTable rows := isTable_build version legacy rows es
  refine ⟨fun i hi => ItemSnapshot.restore_ofItem table lower hi, fun s hs => ?_⟩
  rw [SelectorSnapshot.restore, SelectorSnapshot.ofSelector,
    ItemSnapshot.mapM_restore_map_ofItem table lower hs]
  rfl

theorem Platform.restore_build_of_sword :
    let rows : List MaterialInfo := [⟨"stone", true, 0⟩, ⟨"minecraft:iron_sword", false, 250⟩]
    let p := build ⟨[1, 13, 2]⟩ false rows []
    let named : Tags := [("Potion", .int 5), ("display", .compound [("Name", .text "Edge")])]
    let sword := (((Item.ofStack 1 ⟨"minecraft:iron_sword", false, 250⟩ 3 []).setDurability
      7).setMetadata (.ofTags named)).setItemForm false
    let block := Item.ofBlock 0 ⟨"minecraft:stone", true, 0⟩ [("axis", "y")]
    (∀ row ∈ rows, Text.lowercase row.id = row.id) ∧ sword.IsBuilt p ∧ block.IsBuilt p ∧
      ItemSnapshot.restore p (.ofItem p sword) = .ok sword ∧
      SelectorSnapshot.restore p (.ofSelector p { Selector.ofItems [sword, block] with amount := 4 })
        = .ok (.ofSelection ⟨[sword, block], 4, false, none⟩) := by
  intro rows p named sword block
  have lower : ∀ row ∈ rows, Text.lowercase row.id = row.id := by decide
  have builtSword : sword.IsBuilt p :=
    .setItemForm (.setMetadata (.setDurability (.ofStack rfl 3 Tags.isProper_nil) 7)
      ⟨by decide, by decide⟩) false
  have builtBlock : block.IsBuilt p := .ofBlock rfl [("axis", "y")]
  have both := restore_build lower ⟨[1, 13, 2]⟩ false []
  refine ⟨lower, builtSword, builtBlock, both.1 sword builtSword, both.2 _ ?_⟩
  exact List.forall_mem_cons.mpr ⟨builtSword, List.forall_mem_singleton.mpr builtBlock⟩

end ItemLexicon
