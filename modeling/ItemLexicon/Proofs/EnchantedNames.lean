import ItemLexicon.Proofs.Quantifiers
import ItemLexicon.Proofs.SharedMetadata

namespace ItemLexicon

namespace Text

variable {w s : List Char} {sides : List Char × List Char}

theorem mem_cutsAt_of_eq_append (ne : w ≠ []) (h : s = sides.1 ++ w ++ sides.2) :
    sides ∈ cutsAt w s := by
  obtain ⟨left, right⟩ := sides
  subst h
  obtain ⟨d, w', rfl⟩ := List.exists_cons_of_ne_nil ne
  induction left with
  | nil =>
    have front : dropPrefix? (d :: w') (d :: (w' ++ right)) = some right :=
      dropPrefix?_append (d :: w') right
    rw [List.nil_append, List.cons_append, cutsAt, front]
    exact List.mem_cons_self
  | cons c left ih =>
    have later : (c :: left, right) ∈ (cutsAt (d :: w') (left ++ d :: w' ++ right)).map
        fun p => (c :: p.1, p.2) := List.mem_map.mpr ⟨_, ih, rfl⟩
    rw [List.cons_append, List.cons_append, cutsAt]
    split
    · exact List.mem_cons_of_mem _ later
    · exact later

theorem mem_cutsAt_iff (ne : w ≠ []) : sides ∈ cutsAt w s ↔ s = sides.1 ++ w ++ sides.2 :=
  ⟨eq_append_of_mem_cutsAt, mem_cutsAt_of_eq_append ne⟩

theorem pairwise_cutsAt (w s : List Char) :
    (cutsAt w s).Pairwise fun p p' => p.1.length < p'.1.length := by
  induction s with
  | nil => exact List.Pairwise.nil
  | cons c s ih =>
    have later : ((cutsAt w s).map fun p => (c :: p.1, p.2)).Pairwise
        fun p p' => p.1.length < p'.1.length :=
      List.pairwise_map.mpr (ih.imp Nat.succ_lt_succ)
    rw [cutsAt]
    split
    · refine List.pairwise_cons.mpr ⟨fun p hp => ?_, later⟩
      obtain ⟨p', -, rfl⟩ := List.mem_map.mp hp
      exact Nat.succ_pos _
    · exact later

end Text

theorem findSome?_eq_some_iff_least {α β : Type} {f : α → Option β} {size : α → Nat} {l : List α}
    (ordered : l.Pairwise fun a a' => size a < size a') {b : β} :
    l.findSome? f = some b ↔
      ∃ a ∈ l, f a = some b ∧ ∀ a' ∈ l, (f a').isSome → size a ≤ size a' := by
  constructor
  · intro h
    obtain ⟨before, a, after, rfl, found, missed⟩ := List.findSome?_eq_some_iff.mp h
    refine ⟨a, List.mem_append_right _ List.mem_cons_self, found, fun a' ha' success => ?_⟩
    rcases List.mem_append.mp ha' with ha' | ha'
    · rw [missed a' ha'] at success
      cases success
    · rcases List.mem_cons.mp ha' with rfl | ha'
      · exact Nat.le_refl _
      · have behind := (List.pairwise_append.mp ordered).2.1
        exact Nat.le_of_lt ((List.pairwise_cons.mp behind).1 a' ha')
  · rintro ⟨a, ha, found, least⟩
    obtain ⟨before, after, rfl⟩ := List.append_of_mem ha
    refine List.findSome?_eq_some_iff.mpr ⟨before, a, after, rfl, found, fun a' ha' => ?_⟩
    rw [← Option.not_isSome_iff_eq_none]
    intro success
    have lt := (List.pairwise_append.mp ordered).2.2 a' ha' a List.mem_cons_self
    have le := least a' (List.mem_append_left _ ha') success
    omega

namespace Enchantment

theorem listed?_of_mem {es : List Enchantment} (distinct : (es.map id).Nodup) {e : Enchantment}
    (he : e ∈ es) : listed? es e.id = some e.effectiveLevel := by
  induction es with
  | nil => cases he
  | cons e' es ih =>
    obtain ⟨new, rest⟩ := List.nodup_cons.mp distinct
    rw [listed?_cons]
    rcases List.mem_cons.mp he with rfl | he
    · have unlisted : listed? es e.id = none := by
        rw [listed?, Option.map_eq_none_iff, List.find?_eq_none]
        intro e' he' same
        rw [List.mem_reverse] at he'
        exact new (List.mem_map.mpr ⟨e', he', of_decide_eq_true same⟩)
      rw [unlisted, if_pos rfl, Option.none_or]
    · rw [ih rest he, Option.some_or]

end Enchantment

namespace Item

theorem IsDefined.sorted_enchantments {m : Nat} {info : MaterialInfo} {i : Item}
    (h : i.IsDefined m info) : i.metadata.enchantments.Sorted := by
  obtain ⟨tags, states, rfl⟩ := h
  rw [Item.ofDefinition]
  dsimp only
  split
  · exact Dictionary.sorted_nil
  · rw [Metadata.ofTags]
    dsimp only
    rw [Metadata.enchantmentsOf.eq_def]
    split
    · exact Dictionary.sorted_ofList _
    · exact Dictionary.sorted_nil

end Item

namespace Selector

theorem material_enchant (s : Selector) (es : List Enchantment) :
    (s.enchant es).types.map (·.material) = s.types.map (·.material) := by
  have types : (s.enchant es).types =
      s.types.map (·.applyMetadata (s.toSelection.metadata.enchant es)) := rfl
  rw [types, List.map_map]
  rfl

theorem hasEnchantments_enchant {s : Selector} {es : List Enchantment} (ne : s.types ≠ [])
    (sorted : s.toSelection.metadata.enchantments.Sorted)
    (distinct : (es.map Enchantment.id).Nodup) : (s.enchant es).hasEnchantments es = true := by
  have types : (s.enchant es).types =
      s.types.map (·.applyMetadata (s.toSelection.metadata.enchant es)) := rfl
  rw [hasEnchantments, types, Bool.and_eq_true, Bool.not_eq_true', List.isEmpty_eq_false_iff,
    List.all_map, List.all_eq_true]
  refine ⟨fun none => ne (List.map_eq_nil_iff.mp none), fun i _ => ?_⟩
  rw [Function.comp_apply, List.all_eq_true]
  intro e he
  have level : Dictionary.get? e.id
      (i.applyMetadata (s.toSelection.metadata.enchant es)).metadata.enchantments =
        some e.effectiveLevel := by
    show Dictionary.get? e.id
      (i.metadata.apply (s.toSelection.metadata.enchant es)).enchantments = _
    rw [Metadata.get?_apply_enchant sorted, Enchantment.listed?_of_mem distinct he, Option.some_or]
  rw [hasEnchantment, level]
  dsimp only
  cases wanted : e.level with
  | none => rfl
  | some n => simp [Enchantment.effectiveLevel, wanted]

end Selector

namespace Context

variable {c : Context} {q : Quantifier} {name : List Char}

/-- A place where a name falls into a type that has variants and known enchantments. -/
structure PartsAt (c : Context) (name left right : List Char) (types : List Item)
    (es : List Enchantment) : Prop where
  text : name = left ++ " of ".toList ++ right
  named : c.type? left = some types
  ne_nil : types ≠ []
  listed : Enchantment.readAll? c.platform right = some es

def suffixed? (c : Context) (q : Quantifier) (name : List Char) : Option Selector :=
  (Text.cutsAt " of ".toList name).findSome? (c.enchanted? q)

theorem enchanted?_eq_some_iff {sides : List Char × List Char} {s : Selector} :
    c.enchanted? q sides = some s ↔ ∃ types es, c.type? sides.1 = some types ∧ types ≠ [] ∧
      Enchantment.readAll? c.platform sides.2 = some es ∧
      s = (q.selector.addAll types).enchant es := by
  constructor
  · intro h
    rw [enchanted?] at h
    split at h
    · rename_i s' es named listed
      cases h
      rw [quantified?] at named
      split at named
      · rename_i i items known
        cases named
        exact ⟨_, es, known, List.cons_ne_nil i items, listed, rfl⟩
      · cases named
    · cases h
  · rintro ⟨types, es, known, ne, listed, rfl⟩
    obtain ⟨i, items, rfl⟩ := List.exists_cons_of_ne_nil ne
    rw [enchanted?, quantified?, known, listed]

theorem isSome_enchanted?_iff {sides : List Char × List Char}
    (h : name = sides.1 ++ " of ".toList ++ sides.2) :
    (c.enchanted? q sides).isSome ↔ ∃ types es, c.PartsAt name sides.1 sides.2 types es := by
  rw [Option.isSome_iff_exists]
  constructor
  · rintro ⟨s, hs⟩
    obtain ⟨types, es, known, ne, listed, -⟩ := enchanted?_eq_some_iff.mp hs
    exact ⟨types, es, h, known, ne, listed⟩
  · rintro ⟨types, es, parts⟩
    exact ⟨_, enchanted?_eq_some_iff.mpr
      ⟨types, es, parts.named, parts.ne_nil, parts.listed, rfl⟩⟩

theorem suffixed?_eq_some_iff {s : Selector} : c.suffixed? q name = some s ↔
    ∃ left right types es, c.PartsAt name left right types es ∧
      (∀ left' right' types' es', c.PartsAt name left' right' types' es' →
        left.length ≤ left'.length) ∧
      s = (q.selector.addAll types).enchant es := by
  have word : " of ".toList ≠ [] := by decide
  rw [suffixed?, findSome?_eq_some_iff_least (Text.pairwise_cutsAt ..)]
  constructor
  · rintro ⟨⟨left, right⟩, place, found, least⟩
    have text := (Text.mem_cutsAt_iff word).mp place
    obtain ⟨types, es, known, ne, listed, rfl⟩ := enchanted?_eq_some_iff.mp found
    refine ⟨left, right, types, es, ⟨text, known, ne, listed⟩, ?_, rfl⟩
    intro left' right' types' es' parts
    exact least (left', right') ((Text.mem_cutsAt_iff word).mpr parts.text)
      ((isSome_enchanted?_iff parts.text).mpr ⟨types', es', parts⟩)
  · rintro ⟨left, right, types, es, parts, least, rfl⟩
    refine ⟨(left, right), (Text.mem_cutsAt_iff word).mpr parts.text,
      enchanted?_eq_some_iff.mpr
        ⟨types, es, parts.named, parts.ne_nil, parts.listed, rfl⟩, ?_⟩
    rintro ⟨left', right'⟩ place success
    have text := (Text.mem_cutsAt_iff word).mp place
    obtain ⟨types', es', parts'⟩ := (isSome_enchanted?_iff text).mp success
    exact least left' right' types' es' parts'

theorem isSome_suffixed?_iff : (c.suffixed? q name).isSome ↔
    ∃ left right types es, c.PartsAt name left right types es := by
  have word : " of ".toList ≠ [] := by decide
  rw [suffixed?, List.findSome?_isSome_iff]
  constructor
  · rintro ⟨⟨left, right⟩, place, success⟩
    have text := (Text.mem_cutsAt_iff word).mp place
    obtain ⟨types, es, parts⟩ := (isSome_enchanted?_iff text).mp success
    exact ⟨left, right, types, es, parts⟩
  · rintro ⟨left, right, types, es, parts⟩
    exact ⟨(left, right), (Text.mem_cutsAt_iff word).mpr parts.text,
      (isSome_enchanted?_iff parts.text).mpr ⟨types, es, parts⟩⟩

theorem sorted_of_type? (known : c.registry.Reachable) {types : List Item}
    (named : c.type? name = some types) : ∀ t ∈ types, t.metadata.enchantments.Sorted := by
  rcases type?_cases known named with defined | ⟨-, m, info, rfl⟩
  · intro t ht
    obtain ⟨_, _, defined⟩ := defined t ht
    exact defined.sorted_enchantments
  · exact List.forall_mem_singleton.mpr Dictionary.sorted_nil

theorem PartsAt.hasEnchantments (known : c.registry.Reachable) {left right : List Char}
    {types : List Item} {es : List Enchantment} (h : c.PartsAt name left right types es)
    (distinct : (es.map Enchantment.id).Nodup) :
    ((q.selector.addAll types).enchant es).hasEnchantments es = true := by
  obtain ⟨i, items, rfl⟩ := List.exists_cons_of_ne_nil h.ne_nil
  -- All variants get what the first one has, so its enchantments alone need to be in order.
  have first := sorted_of_type? known h.named i List.mem_cons_self
  exact Selector.hasEnchantments_enchant (List.cons_ne_nil i items) first distinct

theorem resolve?_eq_or {text : String} (ne : Text.lower (Text.trim text.toList) ≠ [])
    (star : Text.lower (Text.trim text.toList) ≠ ['*'])
    (read : Quantifier.read (Text.lower (Text.trim text.toList)) = (q, name)) :
    c.resolve? text = (c.suffixed? q name).or (c.quantified? q name) := by
  have named : (Text.lower (Text.trim text.toList)).isEmpty = false :=
    List.isEmpty_eq_false_iff.mpr ne
  rw [resolve?]
  simp only [named, Bool.false_eq_true, if_false, star, read]
  rfl

/-- A name resolves with enchantments exactly if it falls somewhere into a type with variants and
known enchantments, and then the leftmost such place counts. -/
theorem resolve?_leftmost (known : c.registry.Reachable) {text : String}
    (ne : Text.lower (Text.trim text.toList) ≠ [])
    (star : Text.lower (Text.trim text.toList) ≠ ['*'])
    (read : Quantifier.read (Text.lower (Text.trim text.toList)) = (q, name)) :
    ((c.suffixed? q name).isSome ↔
      ∃ left right types es, c.PartsAt name left right types es) ∧
    (∀ s, c.suffixed? q name = some s → c.resolve? text = some s ∧
      ∃ left right types es, c.PartsAt name left right types es ∧
        (∀ left' right' types' es', c.PartsAt name left' right' types' es' →
          left.length ≤ left'.length) ∧
        s = (q.selector.addAll types).enchant es ∧
        s.types.map (·.material) = types.map (·.material) ∧
        ((es.map Enchantment.id).Nodup → s.hasEnchantments es = true)) ∧
    (c.suffixed? q name = none → c.resolve? text = c.quantified? q name) := by
  have parted := @resolve?_eq_or c q name text ne star read
  refine ⟨isSome_suffixed?_iff, fun s hs => ?_, fun none => ?_⟩
  · obtain ⟨left, right, types, es, parts, least, rfl⟩ := suffixed?_eq_some_iff.mp hs
    refine ⟨by rw [parted, hs, Option.some_or], left, right, types, es, parts, least, rfl, ?_, ?_⟩
    · exact Selector.material_enchant (q.selector.addAll types) es
    · exact parts.hasEnchantments known
  · rw [parted, none, Option.none_or]

theorem resolve?_leftmost_of_doom :
    let p : Platform := ⟨⟨[1, 20, 4]⟩, false, [⟨"minecraft:diamond_sword", false, 1561⟩],
      [⟨"minecraft:sharpness", []⟩, ⟨"minecraft:mending", []⟩]⟩
    let c := ofRegistry ((Registry.empty p).run
      [.register ⟨⟨"blade of doom", "blades of doom", .a⟩, "diamond_sword", [], []⟩])
    let text := "2 Blades of doom of sharpness 5 and mending"
    let name := "blades of doom of sharpness 5 and mending".toList
    (c.registry.Reachable ∧ Text.lower (Text.trim text.toList) ≠ [] ∧
      Text.lower (Text.trim text.toList) ≠ ['*'] ∧
      Quantifier.read (Text.lower (Text.trim text.toList)) = (⟨2, false⟩, name)) ∧
    ∃ s left right types es, c.resolve? text = some s ∧ c.PartsAt name left right types es ∧
      s.types.map (·.material) = types.map (·.material) ∧
      ((es.map Enchantment.id).Nodup → s.hasEnchantments es = true) := by
  intro p c text name
  have known : c.registry.Reachable := (Registry.Reachable.empty p).run _
  have form : Text.lower (Text.trim text.toList) ≠ [] ∧
      Text.lower (Text.trim text.toList) ≠ ['*'] ∧
      Quantifier.read (Text.lower (Text.trim text.toList)) = (⟨2, false⟩, name) := by
    decide +kernel
  have found : (c.suffixed? ⟨2, false⟩ name).isSome = true := by decide +kernel
  clear_value c
  obtain ⟨ne, star, read⟩ := form
  obtain ⟨s, hs⟩ := Option.isSome_iff_exists.mp found
  obtain ⟨resolved, left, right, types, es, parts, -, -, materials, has⟩ :=
    (resolve?_leftmost known ne star read).2.1 s hs
  exact ⟨⟨known, ne, star, read⟩, s, left, right, types, es, resolved, parts, materials, has⟩

theorem empty_text_is_no_type :
    let p : Platform := ⟨⟨[1, 20, 4]⟩, false, [⟨"minecraft:air", false, 0⟩], []⟩
    let c := ofRegistry (.empty p)
    Quantifier.read (Text.lower (Text.trim "".toList)) = (.none, []) ∧
      (¬∃ left right types es, c.PartsAt [] left right types es) ∧
      (c.quantified? .none []).map (fun s => s.types.map (·.material)) = some [some 0] ∧
      c.resolve? "" = none := by
  refine ⟨by decide, ?_, by decide +kernel, rfl⟩
  rintro ⟨left, right, types, es, parts⟩
  have empty := congrArg List.length parts.text
  simp at empty

end Context

end ItemLexicon
