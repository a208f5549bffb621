import ItemLexicon.Proofs.RegisteredNames
import Mathlib.Data.List.Forall2

namespace ItemLexicon

theorem or_eq_right_iff {α : Type} {o p : Option α} : o.or p = p ↔ o = none ∨ o = p := by
  cases o <;> simp [eq_comm]

namespace Dictionary

theorem get?_of_mem {α : Type} {d : Dictionary α} (h : d.keys.Nodup) {key : String} {value : α}
    (member : (key, value) ∈ d) : get? key d = some value := by
  induction d with
  | nil => cases member
  | cons e d ih =>
    obtain ⟨k, v⟩ := e
    obtain ⟨new, rest⟩ := List.nodup_cons.mp h
    rcases List.mem_cons.mp member with same | member
    · cases same
      exact get?_cons_self ..
    · have ne : k ≠ key := by
        rintro rfl
        exact new (List.mem_map.mpr ⟨_, member, rfl⟩)
      rw [get?, if_neg ne, ih rest member]

end Dictionary

namespace Enchantment

def listed? (es : List Enchantment) (id : String) : Option Nat :=
  (es.reverse.find? fun e => e.id = id).map effectiveLevel

theorem listed?_cons (e : Enchantment) (es : List Enchantment) (id : String) :
    listed? (e :: es) id =
      (listed? es id).or (if e.id = id then some e.effectiveLevel else none) := by
  rw [listed?, listed?, List.reverse_cons, List.find?_append, Option.map_or]
  congr 1
  by_cases same : e.id = id <;> simp [same]

end Enchantment

namespace Metadata

open Enchantment

variable {es : List Enchantment} {m n base : Metadata}

theorem get?_enchant (m : Metadata) (es : List Enchantment) (id : String) :
    Dictionary.get? id (m.enchant es).enchantments =
      (listed? es id).or (Dictionary.get? id m.enchantments) := by
  show Dictionary.get? id
    (es.foldl (fun d e => Dictionary.insert e.id e.effectiveLevel d) m.enchantments) = _
  generalize m.enchantments = d
  induction es generalizing d with
  | nil => rfl
  | cons e es ih =>
    rw [List.foldl_cons, ih, listed?_cons, Dictionary.get?_insert, Option.or_assoc]
    by_cases same : e.id = id
    · simp [same]
    · simp [same, Ne.symm same]

theorem sorted_enchant (h : m.enchantments.Sorted) (es : List Enchantment) :
    (m.enchant es).enchantments.Sorted := by
  show Dictionary.Sorted
    (es.foldl (fun d e => Dictionary.insert e.id e.effectiveLevel d) m.enchantments)
  generalize m.enchantments = d at h
  induction es generalizing d with
  | nil => exact h
  | cons e es ih => exact ih _ (h.insert ..)

/-- The second metadata is the first one with the enchantments of a list, and nothing else. -/
structure IsEnchanted (es : List Enchantment) (m n : Metadata) : Prop where
  displayName : n.displayName = m.displayName
  lore : n.lore = m.lore
  hideFlags : n.hideFlags = m.hideFlags
  kind : n.kind = m.kind
  extra : n.extra = m.extra
  enchantments : ∀ id, Dictionary.get? id n.enchantments =
    (listed? es id).or (Dictionary.get? id m.enchantments)

/-- All that `base` sets is set alike, the enchantments of the list aside. -/
structure Includes (es : List Enchantment) (m base : Metadata) : Prop where
  displayName : base.displayName = none ∨ base.displayName = m.displayName
  lore : base.lore = none ∨ base.lore = m.lore
  hideFlags : m.hideFlags ||| base.hideFlags = m.hideFlags
  enchantments : ∀ e ∈ base.enchantments, listed? es e.1 = none →
    Dictionary.get? e.1 m.enchantments = some e.2

instance : Decidable (Includes es m base) :=
  decidable_of_iff ((base.displayName = none ∨ base.displayName = m.displayName) ∧
      (base.lore = none ∨ base.lore = m.lore) ∧ m.hideFlags ||| base.hideFlags = m.hideFlags ∧
      ∀ e ∈ base.enchantments, listed? es e.1 = none →
        Dictionary.get? e.1 m.enchantments = some e.2)
    ⟨fun h => ⟨h.1, h.2.1, h.2.2.1, h.2.2.2⟩,
      fun h => ⟨h.displayName, h.lore, h.hideFlags, h.enchantments⟩⟩

theorem get?_apply_enchant (h : base.enchantments.Sorted) (m : Metadata) (es : List Enchantment)
    (id : String) : Dictionary.get? id (m.apply (base.enchant es)).enchantments =
      (listed? es id).or
        ((Dictionary.get? id base.enchantments).or (Dictionary.get? id m.enchantments)) := by
  show Dictionary.get? id (Dictionary.merge m.enchantments (base.enchant es).enchantments) = _
  rw [Dictionary.get?_merge (sorted_enchant h es).nodup, get?_enchant, Option.or_assoc]

theorem isEnchanted_apply_iff (h : base.enchantments.Sorted) :
    IsEnchanted es m (m.apply (base.enchant es)) ↔ Includes es m base := by
  constructor
  · intro enchanted
    refine ⟨or_eq_right_iff.mp enchanted.displayName, or_eq_right_iff.mp enchanted.lore,
      enchanted.hideFlags, fun e he unlisted => ?_⟩
    have level := enchanted.enchantments e.1
    rw [get?_apply_enchant h, unlisted, Option.none_or, Option.none_or,
      Dictionary.get?_of_mem h.nodup he, Option.some_or] at level
    exact level.symm
  · intro includes
    refine ⟨or_eq_right_iff.mpr includes.displayName, or_eq_right_iff.mpr includes.lore,
      includes.hideFlags, rfl, rfl, fun id => ?_⟩
    rw [get?_apply_enchant h]
    cases mentioned : listed? es id with
    | some level => rfl
    | none =>
      cases set : Dictionary.get? id base.enchantments with
      | none => rfl
      | some level =>
        rw [includes.enchantments (id, level) (Dictionary.mem_of_get? set) mentioned]
        rfl

end Metadata

namespace Selector

/-- Every variant gets the enchantments of the list, and no more exactly if it has already what is
set by the metadata given for all, or else by that of the first variant. -/
theorem enchant_isEnchanted_iff (s : Selector) (es : List Enchantment)
    (h : s.toSelection.metadata.enchantments.Sorted) :
    List.Forall₂ (fun i j => j.metadata.kind = i.metadata.kind ∧
        j.metadata.extra = i.metadata.extra ∧
        ∀ id level, Enchantment.listed? es id = some level →
          Dictionary.get? id j.metadata.enchantments = some level)
      s.types (s.enchant es).types ∧
    (List.Forall₂ (fun i j => i.metadata.IsEnchanted es j.metadata) s.types (s.enchant es).types ↔
      ∀ i ∈ s.types, i.metadata.Includes es s.toSelection.metadata) := by
  let base := s.toSelection.metadata
  have types : (s.enchant es).types = s.types.map (·.applyMetadata (base.enchant es)) := rfl
  rw [types, List.forall₂_map_right_iff, List.forall₂_map_right_iff, List.forall₂_same,
    List.forall₂_same]
  constructor
  · intro i _
    refine ⟨rfl, rfl, fun id level mentioned => ?_⟩
    show Dictionary.get? id (i.metadata.apply (base.enchant es)).enchantments = some level
    rw [Metadata.get?_apply_enchant h, mentioned]
    rfl
  · apply forall₂_congr
    intro i _
    exact Metadata.isEnchanted_apply_iff h

theorem enchant_isEnchanted_of_blades :
    let info : MaterialInfo := ⟨"minecraft:diamond_sword", false, 1561⟩
    let smite : Tags := [("Enchantments", .list [.compound [("id", .text "smite")]])]
    let named : Tags := smite ++ [("display", .compound [("Name", .text "Edge")])]
    let s := ofItems [.ofDefinition 0 info smite [], .ofDefinition 0 info named []]
    let es : List Enchantment := [⟨"minecraft:sharpness", some 5⟩]
    s.toSelection.metadata.enchantments.Sorted ∧
      List.Forall₂ (fun i j => i.metadata.IsEnchanted es j.metadata) s.types
        (s.enchant es).types := by
  intro info smite named s es
  have sorted : s.toSelection.metadata.enchantments.Sorted := by decide +kernel
  exact ⟨sorted, (enchant_isEnchanted_iff s es sorted).2.mpr (by decide +kernel)⟩

theorem name_spreads_over_enchanted_blades :
    let p : Platform := ⟨⟨[1, 20, 4]⟩, false, [⟨"minecraft:diamond_sword", false, 1561⟩,
      ⟨"minecraft:iron_sword", false, 250⟩], [⟨"minecraft:sharpness", []⟩]⟩
    let named : Tags := [("display", .compound [("Name", .text "Edge")])]
    let c := Context.ofRegistry ((Registry.empty p).run
      [.register ⟨⟨"blade", "blade", .a⟩, "diamond_sword", named, []⟩,
        .register ⟨⟨"blade", "blade", .a⟩, "iron_sword", [], []⟩])
    let es : List Enchantment := [⟨"minecraft:sharpness", some 5⟩]
    ∃ s, c.resolve? "blade" = some s ∧
      s.types.map (·.metadata.displayName) = [some "Edge", none] ∧
      (s.enchant es).types.map (·.metadata.displayName) = [some "Edge", some "Edge"] ∧
      ¬List.Forall₂ (fun i j => i.metadata.IsEnchanted es j.metadata) s.types
        (s.enchant es).types := by
  intro p named c es
  have names : (c.resolve? "blade").map (fun s => (s.types.map (·.metadata.displayName),
      (s.enchant es).types.map (·.metadata.displayName))) =
      some ([some "Edge", none], [some "Edge", some "Edge"]) := by decide +kernel
  clear_value c
  obtain ⟨s, hs, both⟩ := Option.map_eq_some_iff.mp names
  obtain ⟨before, after⟩ := Prod.mk.inj both
  refine ⟨s, hs, before, after, fun enchanted => ?_⟩
  have kept := enchanted.imp fun _ _ => Metadata.IsEnchanted.displayName
  have same : List.Forall₂ (fun n n' => n' = n) (s.types.map (·.metadata.displayName))
      ((s.enchant es).types.map (·.metadata.displayName)) :=
    List.forall₂_map_left_iff.mpr (List.forall₂_map_right_iff.mpr kept)
  rw [before, after] at same
  simp at same

end Selector

end ItemLexicon
