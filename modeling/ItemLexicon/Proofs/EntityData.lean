import ItemLexicon.Proofs.AddedAlias
import ItemLexicon.Proofs.MetadataRest

namespace ItemLexicon

namespace Metadata

variable {tags v w data : Tags}

def withEntity (data tags : Tags) : Tags := Dictionary.insert "EntityTag" (.compound data) tags

def kindKeys : List String := ["SkullOwner", "Items", "Potion", "CustomPotionEffects"]

def HasNoKind (tags : Tags) : Prop := ∀ key ∈ kindKeys, Dictionary.get? key tags = none

def entityId? (data : Tags) : Option String := (Dictionary.get? "id" data).bind Tag.text?

/-- Nothing is kept of the data. -/
def IsDropped (data : Tags) : Prop := data.length ≤ 1 ∧ entityId? data = none

/-- The data is equal, or nothing is kept of either. -/
def IsIndistinct (v w : Tags) : Prop :=
  Tag.sameEntries v w = true ∨ IsDropped v ∧ IsDropped w

instance (v w : Tags) : Decidable (IsIndistinct v w) :=
  inferInstanceAs (Decidable (_ ∨ (_ ∧ _) ∧ _ ∧ _))

instance (tags : Tags) : Decidable (HasNoKind tags) :=
  decidable_of_iff (∀ key ∈ kindKeys, (Dictionary.get? key tags).isNone = true) <| by
    simp only [Option.isNone_iff_eq_none, HasNoKind]

theorem entityId?_eq_of_same (h : Tag.sameEntries v w = true) : entityId? v = entityId? w := by
  have ids := congrArg (fun es => (Dictionary.get? "id" es).bind Tag.text?)
    ((Tag.sameEntries_iff v w).mp h)
  simpa only [entityId?, Tag.get?_canonicalEntries, Option.bind_map, Function.comp_def,
    Tag.text?_canonical] using ids

theorem eq_of_entityId? {s : String} (short : data.length ≤ 1) (h : entityId? data = some s) :
    data = [("id", .text s)] := by
  obtain ⟨t, ht, text⟩ := Option.bind_eq_some_iff.mp h
  match data, short with
  | [], _ => cases ht
  | [(k, u)], _ =>
    rw [Dictionary.get?] at ht
    split at ht
    · rename_i hk
      cases ht
      cases t <;> cases text
      rw [hk]
    · cases ht

theorem rest?_entityTag_compound (data : Tags) : rest? "EntityTag" (.compound data) =
    if data.length ≤ 1 then none else some (.compound data) := by
  match data with
  | [] => rfl
  | [_] => rfl
  | _ :: _ :: es =>
    rw [if_neg (by simp)]
    rfl

theorem isIndistinct_iff : IsIndistinct v w ↔ entityId? v = entityId? w ∧
    (rest? "EntityTag" (.compound v)).map Tag.canonical =
      (rest? "EntityTag" (.compound w)).map Tag.canonical := by
  rw [rest?_entityTag_compound, rest?_entityTag_compound]
  constructor
  · rintro (same | ⟨⟨short, noId⟩, short', noId'⟩)
    · have entries := (Tag.sameEntries_iff v w).mp same
      have length : v.length = w.length := by
        rw [← Tag.length_canonicalEntries, entries, Tag.length_canonicalEntries]
      refine ⟨entityId?_eq_of_same same, ?_⟩
      rw [length]
      split
      · rfl
      · rw [Option.map_some, Option.map_some, Tag.canonical, Tag.canonical, entries]
    · rw [noId, noId', if_pos short, if_pos short']
      exact ⟨rfl, rfl⟩
  · rintro ⟨ids, rests⟩
    by_cases short : v.length ≤ 1
    · rw [if_pos short] at rests
      have short' : w.length ≤ 1 := by
        by_contra long
        rw [if_neg long] at rests
        cases rests
      cases id : entityId? v with
      | none => exact .inr ⟨⟨short, id⟩, short', ids ▸ id⟩
      | some s =>
        left
        rw [eq_of_entityId? short id, eq_of_entityId? short' (ids ▸ id), Tag.sameEntries_iff]
    · rw [if_neg short] at rests
      have long : ¬w.length ≤ 1 := by
        intro short'
        rw [if_pos short'] at rests
        cases rests
      rw [if_neg long] at rests
      left
      rw [Tag.sameEntries_iff]
      exact Tag.compound.inj (Option.some.inj rests)

theorem sorted_withEntity (sorted : Dictionary.Sorted tags) (data : Tags) :
    Dictionary.Sorted (withEntity data tags) :=
  Dictionary.Sorted.insert sorted ..

theorem HasNoKind.kindOf_withEntity (h : HasNoKind tags) (data : Tags) :
    kindOf (withEntity data tags) = .spawnEgg (entityId? data) := by
  have absent {key : String} (hk : key ∈ kindKeys) (ne : key ≠ "EntityTag") :
      Dictionary.get? key (withEntity data tags) = none := by
    rw [withEntity, Dictionary.get?_insert_of_ne ne, h key hk]
  rw [kindOf_eq_of_none (absent (by decide) (by decide)) (absent (by decide) (by decide))
    (absent (by decide) (by decide)), withEntity, Dictionary.get?_insert_self]
  · rfl
  · intro items list
    rw [absent (by decide) (by decide)] at list
    cases list

theorem agrees_withEntity_iff (sorted : Dictionary.Sorted tags) (noKind : HasNoKind tags)
    (v w : Tags) :
    (ofTags (withEntity v tags)).Agrees (ofTags (withEntity w tags)) ↔ IsIndistinct v w := by
  have other {key : String} (ne : key ≠ "EntityTag") : Dictionary.get? key (withEntity v tags) =
      Dictionary.get? key (withEntity w tags) := by
    rw [withEntity, withEntity, Dictionary.get?_insert_of_ne ne, Dictionary.get?_insert_of_ne ne]
  have extra (data : Tags) (key : String) :
      Dictionary.get? key (ofTags (withEntity data tags)).extra =
        (Dictionary.get? key (withEntity data tags)).bind (rest? key) :=
    get?_extraOf (sorted_withEntity sorted data) key
  rw [isIndistinct_iff]
  constructor
  · intro h
    have kind := h.kind
    have rest := h.extra "EntityTag"
    rw [extra, extra, withEntity, withEntity, Dictionary.get?_insert_self,
      Dictionary.get?_insert_self] at rest
    rw [ofTags, ofTags, noKind.kindOf_withEntity, noKind.kindOf_withEntity] at kind
    exact ⟨MetadataKind.spawnEgg.inj kind, rest⟩
  · rintro ⟨ids, rests⟩
    constructor
    · rw [displayName_ofTags, displayName_ofTags, other (by decide)]
    · rw [lore_ofTags, lore_ofTags, other (by decide)]
    · exact congrArg enchantmentsOf (@other "Enchantments" (by decide))
    · exact congrArg (fun t => (t.bind word?).getD 0) (@other "HideFlags" (by decide))
    · rw [ofTags, ofTags, noKind.kindOf_withEntity, noKind.kindOf_withEntity, ids]
    · intro key
      rw [extra, extra]
      by_cases hk : key = "EntityTag"
      · rw [hk, withEntity, withEntity, Dictionary.get?_insert_self, Dictionary.get?_insert_self]
        exact rests
      · rw [other hk]

end Metadata

namespace Item

open Metadata

variable {tags : Tags}

theorem cutDamage_snd_cases (tags : Tags) :
    (cutDamage tags).2 = tags ∨ (cutDamage tags).2 = Dictionary.erase "Damage" tags := by
  rw [cutDamage]
  split
  · exact .inr rfl
  · exact .inl rfl

theorem cutDamage_withEntity (sorted : Dictionary.Sorted tags) (data : Tags) :
    cutDamage (withEntity data tags) =
      ((cutDamage tags).1, withEntity data (cutDamage tags).2) := by
  rw [cutDamage, cutDamage, withEntity, Dictionary.get?_insert_of_ne (by decide)]
  split
  · rw [Dictionary.Sorted.erase_insert sorted (by decide), withEntity]
  · rfl

theorem withEntity_ne_nil (data tags : Tags) : withEntity data tags ≠ [] := by
  intro h
  have entity : Dictionary.get? "EntityTag" (withEntity data tags) = _ :=
    Dictionary.get?_insert_self ..
  rw [h] at entity
  cases entity

theorem agrees_withEntity_iff (sorted : Dictionary.Sorted tags) (noKind : HasNoKind tags)
    (v w : Tags) (m : Nat) (info : MaterialInfo) (states : States) :
    (ofDefinition m info (withEntity v tags) states).Agrees
      (ofDefinition m info (withEntity w tags) states) ↔ IsIndistinct v w := by
  have kept : Dictionary.Sorted (cutDamage tags).2 ∧ HasNoKind (cutDamage tags).2 := by
    rcases cutDamage_snd_cases tags with same | erased
    · rw [same]
      exact ⟨sorted, noKind⟩
    · rw [erased]
      refine ⟨Dictionary.Sorted.erase sorted _, fun key hk => ?_⟩
      rw [Dictionary.get?_erase sorted.nodup, noKind key hk, ite_self]
  have metadata (data : Tags) :
      (ofDefinition m info (withEntity data tags) states).metadata =
        .ofTags (withEntity data (cutDamage tags).2) := by
    have present := withEntity_ne_nil data (cutDamage tags).2
    rw [ofDefinition, cutDamage_withEntity sorted]
    simp [present]
  rw [← Metadata.agrees_withEntity_iff kept.1 kept.2, ← metadata, ← metadata]
  constructor
  · exact fun h => h.metadata
  · intro h
    constructor
    · rfl
    · rw [ofDefinition, ofDefinition, cutDamage_withEntity sorted, cutDamage_withEntity sorted]
    · rfl
    · exact h

end Item

namespace Registry

open Metadata

variable {r : Registry} {c d : Registration} {m : Nat} {info : MaterialInfo} {e : Entry}

theorem Sound.exists_brings (h : r.Sound) (new : r.entries? c.id = none)
    (material : r.platform.material? c.id = some m) (row : r.platform.info? m = some info)
    (accepted : c.isRefused info = false) :
    ∃ e, (r.register c).equal? (c.item m info) = some e ∧ r.Brings c [e] := by
  rcases h.register_cases c with ⟨failed, -⟩ | ⟨-, es, brings, -⟩
  · exact absurd (attempt_of_item material row accepted) failed
  · cases brings with
    | reference known =>
      rw [new] at known
      cases known
    | item _ material' row' _ found =>
      rw [material] at material'
      cases material'
      rw [row] at row'
      cases row'
      exact ⟨_, found, .item new material row accepted found⟩

theorem Sound.brings_again_iff (h : r.Sound) (material : r.platform.material? c.id = some m)
    (row : r.platform.info? m = some info) (new : (r.register c).entries? d.id = none)
    (same : d.id = c.id) (accepted : d.isRefused info = false)
    (found : (r.register c).equal? (c.item m info) = some e) :
    (r.register c).Brings d [e] ↔ (c.item m info).Agrees (d.item m info) := by
  have first := h.register c
  have second := first.register d
  obtain ⟨listed, agrees⟩ := (first.index.equal?_eq_some_iff (c.isDefined m info)).mp found
  constructor
  · intro brings
    cases brings with
    | reference known =>
      rw [new] at known
      cases known
    | item _ material' row' _ found' =>
      rw [register_platform, same, material] at material'
      cases material'
      rw [register_platform, row] at row'
      cases row'
      obtain ⟨-, agrees'⟩ := (second.index.equal?_eq_some_iff (d.isDefined m info)).mp found'
      exact agrees.trans agrees'.symm
  · intro alike
    refine .item (m := m) new ?_ ?_ accepted ?_
    · rw [register_platform, same, material]
    · rw [register_platform, row]
    · exact (second.index.equal?_eq_some_iff (d.isDefined m info)).mpr
        ⟨(first.grows_register d).entries e listed, alike.symm.trans agrees⟩

/-- Metadata that is read from tags which differ in the data of an entity only is the same just if
that data is equal or nothing is kept of it. -/
theorem same_withEntity_iff {tags : Tags} (sorted : Dictionary.Sorted tags)
    (noKind : HasNoKind tags) (v w : Tags) :
    ((ofTags (withEntity v tags)).same (ofTags (withEntity w tags)) = true ↔ IsIndistinct v w) ∧
    ∀ (r : Registry) (name name' : AliasName) (id : String) (states : States) (m : Nat)
      (info : MaterialInfo), r.Reachable → r.entries? id = none →
      r.platform.material? id = some m → r.platform.info? m = some info →
      let c : Registration := ⟨name, id, withEntity v tags, states⟩
      let d : Registration := ⟨name', id, withEntity w tags, states⟩
      c.isRefused info = false →
      ∃ e, r.Brings c [e] ∧ ((r.register c).entries? id = none →
        ((r.register c).Brings d [e] ↔ IsIndistinct v w)) := by
  constructor
  · rw [← agrees_withEntity_iff sorted noKind]
    exact (Agrees.iff_same (sorted_extraOf (sorted_withEntity sorted v))
      (sorted_extraOf (sorted_withEntity sorted w))).symm
  · intro r name name' id states m info h new material row c d accepted
    obtain ⟨e, found, brings⟩ := h.sound.exists_brings (c := c) new material row accepted
    refine ⟨e, brings, fun new' => ?_⟩
    have accepted' : d.isRefused info = false := accepted
    rw [h.sound.brings_again_iff (c := c) (d := d) material row new' rfl accepted' found]
    exact Item.agrees_withEntity_iff sorted noKind v w m info _

theorem same_withEntity_iff_of_zombies :
    let egg : MaterialInfo := ⟨"minecraft:zombie_spawn_egg", false, 0⟩
    let p : Platform := ⟨⟨[1, 20, 4]⟩, false, [egg], []⟩
    let tags : Tags := [("Damage", .int 3)]
    let v : Tags := [("id", .text "zombie")]
    let w : Tags := [("NoAI", .int 1), ("id", .text "zombie")]
    let c : Registration := ⟨⟨"zombie egg", "zombie eggs", .a⟩, "zombie_spawn_egg",
      withEntity v tags, []⟩
    let d : Registration := ⟨⟨"still egg", "still eggs", .a⟩, "zombie_spawn_egg",
      withEntity w tags, []⟩
    (ofTags (withEntity v tags)).same (ofTags (withEntity w tags)) = false ∧
      ∃ e, (empty p).Brings c [e] ∧ ¬((empty p).register c).Brings d [e] := by
  intro egg p tags v w c d
  have told : ¬IsIndistinct v w := by decide
  obtain ⟨same, merged⟩ := @same_withEntity_iff tags (by decide) (by decide) v w
  obtain ⟨e, brings, again⟩ := merged (empty p) c.name d.name "zombie_spawn_egg" [] 0 egg
    (.empty p) (by decide +kernel) (by decide +kernel) rfl (by decide)
  refine ⟨?_, e, brings, ?_⟩
  · rw [Bool.eq_false_iff]
    exact fun eq => told (same.mp eq)
  · exact fun both => told ((again (by decide +kernel)).mp both)

theorem single_entity_entry_is_lost :
    let p : Platform := ⟨⟨[1, 20, 4]⟩, false, [⟨"minecraft:zombie_spawn_egg", false, 0⟩], []⟩
    let w : Tags := [("NoAI", .int 1)]
    let define (singular plural : String) (data : Tags) : Registration :=
      ⟨⟨singular, plural, .a⟩, "zombie_spawn_egg", withEntity data [], []⟩
    let r := (empty p).registerAll [define "egg" "eggs" [], define "still egg" "still eggs" w]
    Tag.sameEntries [] w = false ∧
      (ofTags (withEntity [] [])).same (ofTags (withEntity w [])) = true ∧
      r.scope.index.entries.length = 1 := by
  decide +kernel

end Registry

end ItemLexicon
