import ItemLexicon.Item.Metadata
import ItemLexicon.Proofs.ProperVariation

namespace ItemLexicon.Metadata

variable {tags entries : Tags} {key : String}

theorem sorted_displayRest (h : entries.Sorted) : Dictionary.Sorted (displayRest entries) :=
  Dictionary.Sorted.filter h _

theorem get?_displayRest (h : entries.Sorted) (key : String) :
    Dictionary.get? key (displayRest entries) = (Dictionary.get? key entries).filter fun t =>
      !((key == "Name" && (nameOf? t).isSome) || (key == "Lore" && (loreOf? t).isSome)) :=
  Dictionary.get?_filter h.nodup (fun k t =>
    !((k == "Name" && (nameOf? t).isSome) || (k == "Lore" && (loreOf? t).isSome))) key

@[simp] theorem displayRest_displayRest (entries : Tags) :
    displayRest (displayRest entries) = displayRest entries := by
  simp [displayRest]

theorem name_displayRest (h : entries.Sorted) :
    (Dictionary.get? "Name" (displayRest entries)).bind nameOf? = none := by
  rw [get?_displayRest h]
  cases Dictionary.get? "Name" entries with
  | none => rfl
  | some t => cases ht : nameOf? t <;> simp [Option.filter, ht]

theorem lore_displayRest (h : entries.Sorted) :
    (Dictionary.get? "Lore" (displayRest entries)).bind loreOf? = none := by
  rw [get?_displayRest h]
  cases Dictionary.get? "Lore" entries with
  | none => rfl
  | some t => cases ht : loreOf? t <;> simp [Option.filter, ht]

theorem eq_of_rest? {t rest : Tag} (hk : key ≠ "display") (h : rest? key t = some rest) :
    rest = t := by
  unfold rest? at h
  rw [if_neg hk] at h
  split at h
  · cases t <;> cases h <;> rfl
  · split at h
    · split at h
      · cases h
      · cases h
        rfl
    · split at h
      · cases h
      · split at h
        · split at h
          · cases h
            rfl
          · cases h
        · cases h
          rfl

theorem rest?_display_compound (entries : Tags) : rest? "display" (.compound entries) =
    if displayRest entries = [] then none else some (.compound (displayRest entries)) := by
  rw [rest?, if_pos rfl]
  cases displayRest entries <;> rfl

theorem rest?_rest? {t rest : Tag} (h : rest? key t = some rest) : rest? key rest = some rest := by
  by_cases hk : key = "display"
  · subst hk
    cases t with
    | compound entries =>
      rw [rest?_display_compound] at h
      split at h
      · cases h
      · rename_i left
        cases h
        rw [rest?_display_compound, displayRest_displayRest, if_neg left]
    | _ =>
      cases h
      rfl
  · have same := eq_of_rest? hk h
    subst same
    exact h

theorem get?_extraOf (h : Dictionary.Sorted tags) (key : String) :
    Dictionary.get? key (extraOf tags) = (Dictionary.get? key tags).bind (rest? key) := by
  have distinct := h.nodup
  clear h
  induction tags with
  | nil => rfl
  | cons e tags ih =>
    obtain ⟨k, t⟩ := e
    obtain ⟨new, rest⟩ := List.nodup_cons.mp distinct
    rw [extraOf]
    by_cases hk : k = key
    · subst hk
      rw [Dictionary.get?_cons_self, Option.bind_some]
      cases ht : rest? k t with
      | some u => exact Dictionary.get?_cons_self ..
      | none =>
        simp only
        rw [ih rest, Dictionary.get?_eq_none_iff.mpr new, Option.bind_none]
    · rw [Dictionary.get?, if_neg hk, ← ih rest]
      cases rest? k t with
      | some u => rw [Dictionary.get?, if_neg hk]
      | none => rfl

theorem sorted_extraOf (h : Dictionary.Sorted tags) : Dictionary.Sorted (extraOf tags) := by
  have sub : List.Sublist (Dictionary.keys (extraOf tags)) (Dictionary.keys tags) := by
    clear h
    induction tags with
    | nil => exact List.Sublist.refl _
    | cons e tags ih =>
      obtain ⟨k, t⟩ := e
      rw [extraOf]
      cases rest? k t with
      | some u => exact ih.cons_cons k
      | none => exact ih.cons k
  exact List.Pairwise.sublist sub h

theorem get?_setSome (key other : String) (value : Option Tag) (tags : Tags) :
    Dictionary.get? other (setSome key value tags) =
      if other = key then value.or (Dictionary.get? other tags)
      else Dictionary.get? other tags := by
  cases value with
  | none => rw [setSome, Option.none_or, ite_self]
  | some t => exact Dictionary.get?_insert ..

theorem sorted_setSome (h : Dictionary.Sorted tags) (key : String) (value : Option Tag) :
    Dictionary.Sorted (setSome key value tags) := by
  cases value with
  | none => exact h
  | some t => exact h.insert key t

theorem sorted_entriesOf {t : Option Tag} (h : ∀ u ∈ t, u.IsProper) :
    Dictionary.Sorted (entriesOf t) := by
  unfold entriesOf
  split
  · exact h _ rfl
  · exact Dictionary.sorted_nil

theorem bind_child? (key : String) (t : Option Tag) :
    t.bind (child? key) = Dictionary.get? key (entriesOf t) := by
  rcases t with - | (_ | _ | _ | _ | _ | _ | _) <;> rfl

theorem entriesOf_display_extraOf (h : Dictionary.Sorted tags) :
    entriesOf (Dictionary.get? "display" (extraOf tags)) =
      displayRest (entriesOf (Dictionary.get? "display" tags)) := by
  rw [get?_extraOf h]
  cases Dictionary.get? "display" tags with
  | none => rfl
  | some t =>
    rw [Option.bind_some]
    cases t with
    | compound entries =>
      rw [rest?_display_compound]
      split
      · rename_i nothing
        exact nothing.symm
      · rfl
    | _ => rfl

theorem bind_rest?_eq_none (hk : key = "Potion" ∨ key = "CustomPotionEffects" ∨ key = "SkullOwner")
    (t : Option Tag) : t.bind (rest? key) = none := by
  cases t with
  | none => rfl
  | some t => rcases hk with rfl | rfl | rfl <;> rfl

theorem rest?_entityTag {t rest : Tag} (h : rest? "EntityTag" t = some rest) :
    rest = t ∧ ∃ a b es, t = .compound (a :: b :: es) := by
  cases t with
  | compound entries =>
    rcases entries with - | ⟨a, - | ⟨b, es⟩⟩
    · cases h
    · cases h
    · cases h
      exact ⟨rfl, a, b, es, rfl⟩
  | _ => cases h

theorem rest?_items_ne (t : Tag) (items : List Tag) : rest? "Items" t ≠ some (.list items) := by
  intro h
  have same := eq_of_rest? (by decide) h
  subst same
  cases h

theorem rest?_hideFlags {t : Tag} {n : Nat} (h : word? t = some n) :
    rest? "HideFlags" t = none := by
  simp [rest?, h]

theorem word?_int {n : Nat} (h : n ≤ wordLimit) : word? (.int n) = some n := by
  simp [word?, h]

theorem le_of_word? {t : Tag} {n : Nat} (h : word? t = some n) : n ≤ wordLimit := by
  rw [word?.eq_def] at h
  split at h
  · split at h
    · rename_i range
      cases h
      simp only [Bool.and_eq_true, decide_eq_true_eq] at range
      omega
    · cases h
  · cases h

theorem displayName_ofTags (tags : Tags) : (ofTags tags).displayName =
    (Dictionary.get? "Name" (entriesOf (Dictionary.get? "display" tags))).bind nameOf? :=
  congrArg (Option.bind · nameOf?) (bind_child? "Name" _)

theorem lore_ofTags (tags : Tags) : (ofTags tags).lore =
    (Dictionary.get? "Lore" (entriesOf (Dictionary.get? "display" tags))).bind loreOf? :=
  congrArg (Option.bind · loreOf?) (bind_child? "Lore" _)

def redisplayed (entries : Tags) : Tags :=
  setSome "Lore" (((Dictionary.get? "Lore" entries).bind loreOf?).map fun lines =>
      .list (lines.map .text))
    (setSome "Name" (((Dictionary.get? "Name" entries).bind nameOf?).map .text)
      (displayRest entries))

theorem sorted_redisplayed (h : entries.Sorted) : Dictionary.Sorted (redisplayed entries) :=
  sorted_setSome (sorted_setSome (sorted_displayRest h) ..) ..

theorem get?_redisplayed (entries : Tags) (key : String) :
    Dictionary.get? key (redisplayed entries) =
      if key = "Lore" then
        (((Dictionary.get? "Lore" entries).bind loreOf?).map fun lines =>
          Tag.list (lines.map .text)).or (Dictionary.get? key (displayRest entries))
      else if key = "Name" then
        (((Dictionary.get? "Name" entries).bind nameOf?).map .text).or
          (Dictionary.get? key (displayRest entries))
      else Dictionary.get? key (displayRest entries) := by
  rw [redisplayed, get?_setSome, get?_setSome]
  split
  · rename_i hk
    subst hk
    rfl
  · rfl

theorem name_redisplayed (h : entries.Sorted) :
    (Dictionary.get? "Name" (redisplayed entries)).bind nameOf? =
      (Dictionary.get? "Name" entries).bind nameOf? := by
  rw [get?_redisplayed, if_neg (by decide), if_pos rfl]
  cases hn : (Dictionary.get? "Name" entries).bind nameOf? with
  | none => exact name_displayRest h
  | some s => rfl

theorem lore_redisplayed (h : entries.Sorted) :
    (Dictionary.get? "Lore" (redisplayed entries)).bind loreOf? =
      (Dictionary.get? "Lore" entries).bind loreOf? := by
  rw [get?_redisplayed, if_pos rfl]
  cases hl : (Dictionary.get? "Lore" entries).bind loreOf? with
  | none => exact lore_displayRest h
  | some lines =>
    have read : lines.map (Tag.display ∘ Tag.text) = lines := List.map_id lines
    rw [Option.map_some, Option.some_or, Option.bind_some, loreOf?, List.map_map, read]

theorem displayRest_redisplayed (h : entries.Sorted) :
    displayRest (redisplayed entries) = displayRest entries := by
  have rest := sorted_displayRest h
  refine (sorted_displayRest (sorted_redisplayed h)).ext rest fun key => ?_
  have again := get?_displayRest rest key
  rw [displayRest_displayRest] at again
  rw [get?_displayRest (sorted_redisplayed h), get?_redisplayed]
  split
  · rename_i hk
    subst hk
    cases hl : (Dictionary.get? "Lore" entries).bind loreOf? with
    | none => exact again.symm
    | some lines =>
      obtain ⟨t, ht, isLore⟩ := Option.bind_eq_some_iff.mp hl
      rw [get?_displayRest h, ht]
      have written : (loreOf? (.list (lines.map .text))).isNone = false := rfl
      simp [Option.filter_some, isLore, written]
  · split
    · rename_i hk
      subst hk
      cases hn : (Dictionary.get? "Name" entries).bind nameOf? with
      | none => exact again.symm
      | some s =>
        obtain ⟨t, ht, isName⟩ := Option.bind_eq_some_iff.mp hn
        rw [get?_displayRest h, ht]
        have written : (nameOf? (.text s)).isNone = false := rfl
        simp [Option.filter_some, isName, written]
    · exact again.symm

theorem of_enchantmentOf? {t : Tag} {e : String × Nat} (h : enchantmentOf? t = some e) :
    namespaced e.1 = e.1 ∧ e.2 ≤ wordLimit := by
  rw [enchantmentOf?] at h
  split at h
  · split at h
    · cases h
      exact ⟨namespaced_namespaced _, show 1 ≤ wordLimit by decide⟩
    · obtain ⟨n, hn, rfl⟩ := Option.map_eq_some_iff.mp h
      exact ⟨namespaced_namespaced _, le_of_word? hn⟩
  · cases h

theorem sorted_enchantmentsOf (t : Option Tag) : Dictionary.Sorted (enchantmentsOf t) := by
  unfold enchantmentsOf
  split
  · exact Dictionary.sorted_ofList _
  · exact Dictionary.sorted_nil

theorem kindOf_eq_of_none (potion : Dictionary.get? "Potion" tags = none)
    (effects : Dictionary.get? "CustomPotionEffects" tags = none)
    (skull : Dictionary.get? "SkullOwner" tags = none)
    (items : ∀ items, Dictionary.get? "Items" tags ≠ some (.list items)) :
    kindOf tags =
      match Dictionary.get? "EntityTag" tags with
      | some t => .spawnEgg ((child? "id" t).bind Tag.text?)
      | none => .plain := by
  cases hb : Dictionary.get? "EntityTag" tags <;>
    cases hi : Dictionary.get? "Items" tags with
    | none => simp only [kindOf, potion, effects, skull, hi, hb]
    | some t =>
      cases t with
      | list contents => exact absurd hi (items contents)
      | _ => simp only [kindOf, potion, effects, skull, hi, hb]

theorem items_of_kindOf {items : List Tag} (h : kindOf tags = .container items) :
    Dictionary.get? "Items" tags = some (.list items) := by
  rw [kindOf.eq_def] at h
  split at h
  · cases h
  · cases h
  · split at h
    · cases h
    · split at h
      · cases h
        assumption
      · split at h <;> cases h

theorem entity_of_kindOf {entity : Option String} (h : kindOf tags = .spawnEgg entity) :
    ∃ t, Dictionary.get? "EntityTag" tags = some t ∧
      entity = (child? "id" t).bind Tag.text? := by
  rw [kindOf.eq_def] at h
  split at h
  · cases h
  · cases h
  · split at h
    · cases h
    · split at h
      · cases h
      · split at h
        · rename_i t ht
          cases h
          exact ⟨t, ht, rfl⟩
        · cases h

end ItemLexicon.Metadata
