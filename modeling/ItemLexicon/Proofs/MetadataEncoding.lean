import ItemLexicon.Proofs.MetadataRest

namespace ItemLexicon.Metadata

variable {tags entries : Tags} {key : String}

variable (m : Metadata)

def displayEntries (tags : Tags) : Tags :=
  setSome "Lore" (m.lore.map fun lines => .list (lines.map .text))
    (setSome "Name" (m.displayName.map .text) (entriesOf (Dictionary.get? "display" tags)))

def entityEntries (entity : Option String) (tags : Tags) : Tags :=
  setSome "id" (entity.map .text) (entriesOf (Dictionary.get? "EntityTag" tags))

/-- What encoding sets under a key.  Under other keys it leaves what is there. -/
def written? (key : String) : Option Tag :=
  match key with
  | "display" =>
    if m.displayName.isNone && m.lore.isNone then none
    else some (.compound (m.displayEntries m.extra))
  | "Enchantments" =>
    if m.enchantments.isEmpty then none else some (.list (m.enchantments.map enchantmentTag))
  | "HideFlags" => if m.hideFlags = 0 then none else some (.int m.hideFlags)
  | "Potion" =>
    match m.kind with
    | .potion base _ => base.map .text
    | _ => none
  | "CustomPotionEffects" =>
    match m.kind with
    | .potion _ effects => effects
    | _ => none
  | "EntityTag" =>
    match m.kind with
    | .spawnEgg entity => some (.compound (entityEntries entity m.extra))
    | _ => none
  | "SkullOwner" =>
    match m.kind with
    | .skull owner => owner
    | _ => none
  | "Items" =>
    match m.kind with
    | .container items => some (.list items)
    | _ => none
  | _ => none

theorem displayTags_eq (tags : Tags) : m.displayTags tags =
    setSome "display" (if m.displayName.isNone && m.lore.isNone then none
      else some (.compound (m.displayEntries tags))) tags := by
  rw [displayTags]
  split <;> rfl

theorem enchantmentTags_eq (tags : Tags) : m.enchantmentTags tags =
    setSome "Enchantments" (if m.enchantments.isEmpty then none
      else some (.list (m.enchantments.map enchantmentTag))) tags := by
  rw [enchantmentTags]
  split <;> rfl

theorem hideFlagTags_eq (tags : Tags) : m.hideFlagTags tags =
    setSome "HideFlags" (if m.hideFlags = 0 then none else some (.int m.hideFlags)) tags := by
  rw [hideFlagTags]
  split <;> rfl

theorem get?_fieldTags (key : String) (tags : Tags) :
    Dictionary.get? key (m.hideFlagTags (m.enchantmentTags (m.displayTags tags))) =
      if key = "HideFlags" then
        (if m.hideFlags = 0 then none else some (.int m.hideFlags)).or (Dictionary.get? key tags)
      else if key = "Enchantments" then
        (if m.enchantments.isEmpty then none
          else some (.list (m.enchantments.map enchantmentTag))).or (Dictionary.get? key tags)
      else if key = "display" then
        (if m.displayName.isNone && m.lore.isNone then none
          else some (.compound (m.displayEntries tags))).or (Dictionary.get? key tags)
      else Dictionary.get? key tags := by
  rw [hideFlagTags_eq, enchantmentTags_eq, displayTags_eq, get?_setSome, get?_setSome, get?_setSome]
  split
  · rename_i hk
    subst hk
    rfl
  · split
    · rename_i hk
      subst hk
      rfl
    · rfl

theorem get?_toTags (key : String) :
    Dictionary.get? key m.toTags = (m.written? key).or (Dictionary.get? key m.extra) := by
  unfold written?
  split
  case h_9 other display enchantments flags potion effects entity skull items =>
    have free := m.get?_fieldTags key m.extra
    rw [if_neg flags, if_neg enchantments, if_neg display] at free
    rw [toTags, kindTags]
    cases m.kind <;>
      simp only [get?_setSome, Dictionary.get?_insert, if_neg potion, if_neg effects, if_neg entity,
        if_neg skull, if_neg items, free, Option.none_or]
  all_goals
    cases hk : m.kind <;>
      simp [hk, toTags, kindTags, get?_fieldTags, get?_setSome, Dictionary.get?_insert,
        entityEntries]

theorem sorted_toTags (h : Dictionary.Sorted m.extra) : Dictionary.Sorted m.toTags := by
  have fields : Dictionary.Sorted (m.hideFlagTags (m.enchantmentTags (m.displayTags m.extra))) := by
    rw [hideFlagTags_eq, enchantmentTags_eq, displayTags_eq]
    exact sorted_setSome (sorted_setSome (sorted_setSome h ..) ..) ..
  rw [toTags, kindTags]
  cases m.kind with
  | plain => exact fields
  | potion base effects => exact sorted_setSome (sorted_setSome fields ..) ..
  | spawnEgg entity => exact fields.insert ..
  | skull owner => exact sorted_setSome fields ..
  | container items => exact fields.insert ..

theorem entriesOf_display_toTags :
    entriesOf (Dictionary.get? "display" m.toTags) = m.displayEntries m.extra := by
  rw [get?_toTags, written?]
  split
  · rename_i absent
    rw [Bool.and_eq_true, Option.isNone_iff_eq_none, Option.isNone_iff_eq_none] at absent
    rw [Option.none_or, displayEntries, absent.1, absent.2]
    rfl
  · rfl

theorem displayEntries_ofTags (h : Dictionary.Sorted tags) :
    (ofTags tags).displayEntries (extraOf tags) =
      redisplayed (entriesOf (Dictionary.get? "display" tags)) := by
  rw [displayEntries, entriesOf_display_extraOf h, ofTags, bind_child?, bind_child?]
  rfl

theorem enchantmentOf?_enchantmentTag {e : String × Nat} (id : namespaced e.1 = e.1)
    (level : e.2 ≤ wordLimit) : enchantmentOf? (enchantmentTag e) = some e := by
  simp [enchantmentOf?, enchantmentTag, child?, Dictionary.get?, id, word?_int level]

theorem enchantmentsOf_enchantmentsOf (t : Option Tag) :
    enchantmentsOf (some (.list ((enchantmentsOf t).map enchantmentTag))) = enchantmentsOf t := by
  have written : ∀ e ∈ enchantmentsOf t, enchantmentOf? (enchantmentTag e) = some e := by
    intro e he
    unfold enchantmentsOf at he
    split at he
    · obtain ⟨u, -, hu⟩ := List.mem_filterMap.mp (Dictionary.mem_of_mem_ofList he)
      obtain ⟨id, level⟩ := of_enchantmentOf? hu
      exact enchantmentOf?_enchantmentTag id level
    · cases he
  have all : ∀ d : Dictionary Nat, (∀ e ∈ d, enchantmentOf? (enchantmentTag e) = some e) →
      (d.map enchantmentTag).filterMap enchantmentOf? = d := by
    intro d hd
    induction d with
    | nil => rfl
    | cons e d ih =>
      obtain ⟨first, rest⟩ := List.forall_mem_cons.mp hd
      rw [List.map_cons, List.filterMap_cons_some first, ih rest]
  rw [enchantmentsOf, all _ written]
  exact (sorted_enchantmentsOf t).ofList_eq

theorem get?_toTags_ofTags (h : Dictionary.Sorted tags) (key : String) :
    Dictionary.get? key (ofTags tags).toTags =
      ((ofTags tags).written? key).or ((Dictionary.get? key tags).bind (rest? key)) := by
  rw [get?_toTags]
  exact congrArg _ (get?_extraOf h key)

theorem get?_entityEntries (h : Dictionary.Sorted tags) {t : Tag}
    (ht : Dictionary.get? "EntityTag" tags = some t) :
    (Dictionary.get? "id" (entityEntries ((child? "id" t).bind Tag.text?) (extraOf tags))).bind
      Tag.text? = (child? "id" t).bind Tag.text? := by
  rw [entityEntries, get?_setSome, if_pos rfl, get?_extraOf h, ht, Option.bind_some]
  cases entity : (child? "id" t).bind Tag.text? with
  | some id => rfl
  | none =>
    rw [Option.map_none, Option.none_or, ← bind_child?]
    cases left : rest? "EntityTag" t with
    | none => rfl
    | some rest =>
      rw [(rest?_entityTag left).1]
      exact entity

theorem rest?_entityEntries (h : Tags.IsProper tags) {t : Tag}
    (ht : Dictionary.get? "EntityTag" tags = some t) :
    rest? "EntityTag"
      (.compound (entityEntries ((child? "id" t).bind Tag.text?) (extraOf tags))) =
      rest? "EntityTag" t := by
  rw [entityEntries, get?_extraOf h.sorted, ht, Option.bind_some]
  cases left : rest? "EntityTag" t with
  | none =>
    cases (child? "id" t).bind Tag.text? <;> rfl
  | some rest =>
    obtain ⟨rfl, a, b, es, rfl⟩ := rest?_entityTag left
    have proper : Dictionary.Sorted (a :: b :: es) := h.entries _ (Dictionary.mem_of_get? ht)
    have same : setSome "id" (((child? "id" (.compound (a :: b :: es))).bind Tag.text?).map .text)
        (a :: b :: es) = a :: b :: es := by
      cases entity : (child? "id" (.compound (a :: b :: es))).bind Tag.text? with
      | none => rfl
      | some id =>
        obtain ⟨u, hu, text⟩ := Option.bind_eq_some_iff.mp entity
        cases u with
        | text s =>
          cases text
          exact proper.insert_of_get? hu
        | _ => cases text
    rw [entriesOf, same]
    rfl

theorem get?_potion_toTags (h : Dictionary.Sorted tags) :
    Dictionary.get? "Potion" (ofTags tags).toTags =
      match kindOf tags with
      | .potion base _ => base.map .text
      | _ => none := by
  rw [get?_toTags_ofTags h, bind_rest?_eq_none (.inl rfl), Option.or_none]
  rfl

theorem get?_effects_toTags (h : Dictionary.Sorted tags) :
    Dictionary.get? "CustomPotionEffects" (ofTags tags).toTags =
      match kindOf tags with
      | .potion _ effects => effects
      | _ => none := by
  rw [get?_toTags_ofTags h, bind_rest?_eq_none (.inr (.inl rfl)), Option.or_none]
  rfl

theorem get?_skull_toTags (h : Dictionary.Sorted tags) :
    Dictionary.get? "SkullOwner" (ofTags tags).toTags =
      match kindOf tags with
      | .skull owner => owner
      | _ => none := by
  rw [get?_toTags_ofTags h, bind_rest?_eq_none (.inr (.inr rfl)), Option.or_none]
  rfl

theorem get?_items_toTags (h : Dictionary.Sorted tags) :
    Dictionary.get? "Items" (ofTags tags).toTags =
      match kindOf tags with
      | .container items => some (.list items)
      | _ => (Dictionary.get? "Items" tags).bind (rest? "Items") := by
  have written : (ofTags tags).written? "Items" = match kindOf tags with
      | .container items => some (.list items)
      | _ => none := rfl
  rw [get?_toTags_ofTags h, written]
  cases kindOf tags <;> rfl

theorem get?_entityTag_toTags (h : Dictionary.Sorted tags) :
    Dictionary.get? "EntityTag" (ofTags tags).toTags =
      match kindOf tags with
      | .spawnEgg entity => some (.compound (entityEntries entity (extraOf tags)))
      | _ => (Dictionary.get? "EntityTag" tags).bind (rest? "EntityTag") := by
  have written : (ofTags tags).written? "EntityTag" = match kindOf tags with
      | .spawnEgg entity => some (.compound (entityEntries entity (extraOf tags)))
      | _ => none := rfl
  rw [get?_toTags_ofTags h, written]
  cases kindOf tags <;> rfl

theorem kindOf_toTags (h : Dictionary.Sorted tags) :
    kindOf (ofTags tags).toTags = kindOf tags := by
  have potion := get?_potion_toTags h
  have effects := get?_effects_toTags h
  have skull := get?_skull_toTags h
  have items := get?_items_toTags h
  have entity := get?_entityTag_toTags h
  -- The keys are asked in turn, and the one that decides is written anew.
  cases hp : Dictionary.get? "Potion" tags with
  | some p =>
    have kind : kindOf tags =
        .potion (some p.display) (Dictionary.get? "CustomPotionEffects" tags) := by
      rw [kindOf, hp]
    rw [kind] at potion effects ⊢
    simp only [kindOf, potion, effects, Option.map_some, Tag.display]
  | none =>
    cases he : Dictionary.get? "CustomPotionEffects" tags with
    | some e =>
      have kind : kindOf tags = .potion none (some e) := by rw [kindOf, hp, he]
      rw [kind] at potion effects ⊢
      simp only [kindOf, potion, effects, Option.map_none]
    | none =>
      cases hs : Dictionary.get? "SkullOwner" tags with
      | some owner =>
        have kind : kindOf tags = .skull (some owner) := by simp only [kindOf, hp, he, hs]
        rw [kind] at potion effects skull ⊢
        simp only [kindOf, potion, effects, skull]
      | none =>
        by_cases container : ∃ contents, Dictionary.get? "Items" tags = some (.list contents)
        · obtain ⟨contents, hi⟩ := container
          have kind : kindOf tags = .container contents := by simp only [kindOf, hp, he, hs, hi]
          rw [kind] at potion effects skull items ⊢
          simp only [kindOf, potion, effects, skull, items]
        · have kind := kindOf_eq_of_none hp he hs fun contents hi => container ⟨contents, hi⟩
          have noList : ∀ contents, (Dictionary.get? "Items" tags).bind (rest? "Items") ≠
              some (.list contents) := by
            intro contents hi
            obtain ⟨t, -, ht⟩ := Option.bind_eq_some_iff.mp hi
            exact rest?_items_ne t contents ht
          cases hb : Dictionary.get? "EntityTag" tags with
          | some t =>
            rw [hb] at kind
            rw [kind] at potion effects skull items entity ⊢
            rw [kindOf_eq_of_none potion effects skull (items ▸ noList), entity]
            exact congrArg _ (get?_entityEntries h hb)
          | none =>
            rw [hb] at kind
            rw [kind, hb] at entity
            rw [kind] at potion effects skull items ⊢
            rw [kindOf_eq_of_none potion effects skull (items ▸ noList), entity]
            rfl

theorem rest?_displayEntries (h : Tags.IsProper tags)
    (shown : ¬((ofTags tags).displayName.isNone && (ofTags tags).lore.isNone) = true) :
    rest? "display" (.compound ((ofTags tags).displayEntries (ofTags tags).extra)) =
      (Dictionary.get? "display" tags).bind (rest? "display") := by
  cases hd : Dictionary.get? "display" tags with
  | none => simp [ofTags, hd] at shown
  | some d =>
    cases d with
    | compound entries =>
      have proper : Dictionary.Sorted entries := h.entries _ (Dictionary.mem_of_get? hd)
      rw [Option.bind_some, rest?_display_compound, rest?_display_compound,
        show (ofTags tags).extra = extraOf tags from rfl, displayEntries_ofTags h.sorted, hd,
        entriesOf, displayRest_redisplayed proper]
    | _ => simp [ofTags, hd, child?] at shown

theorem rest?_map_enchantmentTag (enchanted : ¬(ofTags tags).enchantments.isEmpty = true) :
    rest? "Enchantments" (.list ((ofTags tags).enchantments.map enchantmentTag)) =
      (Dictionary.get? "Enchantments" tags).bind (rest? "Enchantments") := by
  cases he : Dictionary.get? "Enchantments" tags with
  | none => rfl
  | some e =>
    cases e with
    | list es => rfl
    | _ => simp [ofTags, he, enchantmentsOf] at enchanted

theorem rest?_int_hideFlags (hidden : ¬(ofTags tags).hideFlags = 0) :
    rest? "HideFlags" (.int (ofTags tags).hideFlags) =
      (Dictionary.get? "HideFlags" tags).bind (rest? "HideFlags") := by
  cases hf : Dictionary.get? "HideFlags" tags with
  | none => simp [ofTags, hf] at hidden
  | some f =>
    cases hw : word? f with
    | none => simp [ofTags, hf, hw] at hidden
    | some n =>
      have kept : (ofTags tags).hideFlags = n := by simp [ofTags, hf, hw]
      rw [kept, rest?_hideFlags (word?_int (le_of_word? hw)), Option.bind_some, rest?_hideFlags hw]

theorem rest?_of_written? (h : Tags.IsProper tags) {t : Tag}
    (ht : (ofTags tags).written? key = some t) :
    rest? key t = (Dictionary.get? key tags).bind (rest? key) := by
  -- one case for each key that is written, and one for all others
  rw [written?.eq_def] at ht
  split at ht
  · split at ht
    · cases ht
    · rename_i shown
      cases ht
      exact rest?_displayEntries h shown
  · split at ht
    · cases ht
    · rename_i enchanted
      cases ht
      exact rest?_map_enchantmentTag enchanted
  · split at ht
    · cases ht
    · rename_i hidden
      cases ht
      exact rest?_int_hideFlags hidden
  · rw [bind_rest?_eq_none (.inl rfl)]
    rfl
  · rw [bind_rest?_eq_none (.inr (.inl rfl))]
    rfl
  · split at ht
    · rename_i entity kind
      cases ht
      obtain ⟨u, hu, rfl⟩ := entity_of_kindOf kind
      rw [hu]
      exact rest?_entityEntries h hu
    · cases ht
  · rw [bind_rest?_eq_none (.inr (.inr rfl))]
    rfl
  · split at ht
    · rename_i items kind
      cases ht
      rw [items_of_kindOf kind]
      rfl
    · cases ht
  · cases ht

theorem extraOf_toTags (h : Tags.IsProper tags) :
    extraOf (ofTags tags).toTags = extraOf tags := by
  have extra := sorted_extraOf h.sorted
  have encoded := (ofTags tags).sorted_toTags extra
  refine (sorted_extraOf encoded).ext extra fun key => ?_
  rw [get?_extraOf encoded, get?_extraOf h.sorted, get?_toTags_ofTags h.sorted]
  cases written : (ofTags tags).written? key with
  | some t => exact rest?_of_written? h written
  | none =>
    rw [Option.none_or]
    cases left : (Dictionary.get? key tags).bind (rest? key) with
    | none => rfl
    | some rest =>
      obtain ⟨t, -, ht⟩ := Option.bind_eq_some_iff.mp left
      exact rest?_rest? ht

theorem entriesOf_display_redisplayed (h : Dictionary.Sorted tags) :
    entriesOf (Dictionary.get? "display" (ofTags tags).toTags) =
      redisplayed (entriesOf (Dictionary.get? "display" tags)) := by
  rw [entriesOf_display_toTags, ← displayEntries_ofTags h]
  rfl

theorem sorted_entriesOf_get? (h : Tags.IsProper tags) (key : String) :
    Dictionary.Sorted (entriesOf (Dictionary.get? key tags)) :=
  sorted_entriesOf fun _ ht => h.entries _ (Dictionary.mem_of_get? ht)

theorem enchantments_toTags (h : Dictionary.Sorted tags) :
    (ofTags (ofTags tags).toTags).enchantments = (ofTags tags).enchantments := by
  have fields := get?_toTags_ofTags h "Enchantments"
  have written : (ofTags tags).written? "Enchantments" =
      if (ofTags tags).enchantments.isEmpty then none
      else some (.list ((ofTags tags).enchantments.map enchantmentTag)) := rfl
  rw [written] at fields
  show enchantmentsOf (Dictionary.get? "Enchantments" (ofTags tags).toTags) = _
  rw [fields]
  split
  · rename_i plain
    rw [List.isEmpty_iff.mp plain, Option.none_or]
    rcases Dictionary.get? "Enchantments" tags with - | (_ | _ | _ | _ | _ | _ | _) <;> rfl
  · exact enchantmentsOf_enchantmentsOf _

theorem hideFlags_toTags (h : Dictionary.Sorted tags) :
    (ofTags (ofTags tags).toTags).hideFlags = (ofTags tags).hideFlags := by
  have fields := get?_toTags_ofTags h "HideFlags"
  have written : (ofTags tags).written? "HideFlags" =
      if (ofTags tags).hideFlags = 0 then none else some (.int (ofTags tags).hideFlags) := rfl
  rw [written] at fields
  show ((Dictionary.get? "HideFlags" (ofTags tags).toTags).bind word?).getD 0 = _
  rw [fields]
  split
  · rename_i shown
    rw [shown, Option.none_or]
    cases left : (Dictionary.get? "HideFlags" tags).bind (rest? "HideFlags") with
    | none => rfl
    | some rest =>
      obtain ⟨t, -, ht⟩ := Option.bind_eq_some_iff.mp left
      cases hw : word? rest with
      | none => simp [hw]
      | some n =>
        have same := eq_of_rest? (by decide) ht
        subst same
        rw [rest?_hideFlags hw] at ht
        cases ht
  · rename_i hidden
    cases hw : (Dictionary.get? "HideFlags" tags).bind word? with
    | none => simp [ofTags, hw] at hidden
    | some n =>
      obtain ⟨t, -, ht⟩ := Option.bind_eq_some_iff.mp hw
      have kept : (ofTags tags).hideFlags = n := by simp [ofTags, hw]
      rw [kept, Option.some_or, Option.bind_some, word?_int (le_of_word? ht), Option.getD_some]

/-- Metadata that comes from tags. -/
def IsRead (m : Metadata) : Prop := ∃ tags : Tags, tags.IsProper ∧ ofTags tags = m

theorem isRead_empty : IsRead empty := ⟨[], Tags.isProper_nil, rfl⟩

theorem IsRead.ofTags_toTags {m : Metadata} (h : m.IsRead) : ofTags m.toTags = m := by
  obtain ⟨tags, h, rfl⟩ := h
  have shown := sorted_entriesOf_get? h "display"
  have name : (ofTags (ofTags tags).toTags).displayName = (ofTags tags).displayName := by
    rw [displayName_ofTags, displayName_ofTags, entriesOf_display_redisplayed h.sorted,
      name_redisplayed shown]
  have lore : (ofTags (ofTags tags).toTags).lore = (ofTags tags).lore := by
    rw [lore_ofTags, lore_ofTags, entriesOf_display_redisplayed h.sorted, lore_redisplayed shown]
  have enchantments := enchantments_toTags h.sorted
  have flags := hideFlags_toTags h.sorted
  have kind : (ofTags (ofTags tags).toTags).kind = (ofTags tags).kind := kindOf_toTags h.sorted
  have extra : (ofTags (ofTags tags).toTags).extra = (ofTags tags).extra := extraOf_toTags h
  cases hm : ofTags (ofTags tags).toTags
  cases hn : ofTags tags
  rw [hm, hn] at name lore enchantments flags kind extra
  simp only at name lore enchantments flags kind extra
  rw [name, lore, enchantments, flags, kind, extra]

/-- Metadata that was read from tags is read again from the tags that it is encoded as. -/
theorem ofTags_toTags_ofTags (h : tags.IsProper) :
    ofTags (ofTags tags).toTags = ofTags tags :=
  IsRead.ofTags_toTags ⟨tags, h, rfl⟩

theorem ofTags_toTags_ofTags_of_contested :
    let tags : Tags := [
      ("CustomPotionEffects", .null),
      ("Enchantments", .list [.compound [("id", .text "sharpness")], .bool true,
        .compound [("id", .text "sharpness"), ("lvl", .int 4)]]),
      ("EntityTag", .compound [("Age", .int 3), ("id", .text "pig")]),
      ("HideFlags", .int (-1)),
      ("Items", .list [.int 1]),
      ("Potion", .int 5),
      ("display", .compound [("Color", .int 7), ("Lore", .list [.int 1, .text "old"]),
        ("Name", .int 9)])]
    tags.IsProper ∧ Dictionary.get? "Potion" (ofTags tags).toTags = some (.text "5") ∧
      ofTags (ofTags tags).toTags = ofTags tags := by
  intro tags
  have proper : tags.IsProper := ⟨by decide, by decide⟩
  exact ⟨proper, rfl, ofTags_toTags_ofTags proper⟩

end ItemLexicon.Metadata
