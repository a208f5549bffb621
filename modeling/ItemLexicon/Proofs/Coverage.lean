import ItemLexicon.Proofs.MaterialTable
import ItemLexicon.Proofs.MissingNames
import ItemLexicon.Proofs.Reloading

/-! Which materials a registry has items of, and which of them names list.  An item that is
registered stays, and a selector lists it; it is no longer reached when that selector has lost its
names. -/

namespace ItemLexicon

namespace Scope

@[simp] theorem bind_materials (s : Scope) (name : AliasName) (es : List Entry) :
    (s.bind name es).materials = s.materials := by rw [bind_eq]

theorem exists_mem_listAt_bind {s : Scope} (h : s.Bound) (name : AliasName) {es : List Entry}
    {e : Entry} (he : e ∈ es) : ∃ k, e ∈ (s.bind name es).listAt k := by
  refine ⟨s.target name, ?_⟩
  rw [listAt_bind h, if_pos rfl]
  exact List.mem_append_right _ he

def ListsMaterial (s : Scope) (k m : Nat) : Prop := ∃ e ∈ s.listAt k, e.item.material = some m

end Scope

namespace Registry

def HasItem (r : Registry) (m : Nat) : Prop :=
  ∃ e ∈ r.scope.index.entries, e.item.material = some m

instance (r : Registry) (m : Nat) : Decidable (r.HasItem m) :=
  inferInstanceAs (Decidable (∃ e ∈ r.scope.index.entries, e.item.material = some m))

def NamesMaterial (r : Registry) (m : Nat) : Prop :=
  ∃ name s, r.lookup name = some s ∧ ∃ i ∈ s.types, i.material = some m

/-- There are selectors that list the material, but all of them have lost their names. -/
def Loses (r : Registry) (m : Nat) : Prop :=
  (∃ k, r.scope.ListsMaterial k m) ∧
    ∀ k, r.scope.ListsMaterial k m → ∀ name, r.scope.handle? (Text.lowercase name) ≠ some k

/-- Every registered item is listed by a selector. -/
def ListsAll (r : Registry) : Prop := ∀ e ∈ r.scope.index.entries, ∃ k, e ∈ r.scope.listAt k

def MentionsAll (r : Registry) : Prop := ∀ m, r.HasItem m → r.hasMaterial m = true

def NamesAll (r : Registry) : Prop :=
  ∀ k, r.scope.listAt k ≠ [] → ∃ name, r.scope.handle? (Text.lowercase name) = some k

section Groups

variable {r : Registry} (gs : Dictionary VariationGroup)

@[simp] theorem withGroups_platform : (r.withGroups gs).platform = r.platform := rfl

theorem ListsAll.withGroups (h : r.ListsAll) : (r.withGroups gs).ListsAll := h

theorem MentionsAll.withGroups (h : r.MentionsAll) : (r.withGroups gs).MentionsAll := h

theorem NamesAll.withGroups (h : r.NamesAll) : (r.withGroups gs).NamesAll := h

end Groups

theorem registerAll_platform (r : Registry) (cs : List Registration) :
    (r.registerAll cs).platform = r.platform := by
  induction cs generalizing r with
  | nil => rfl
  | cons c cs ih => exact (ih (r.register c)).trans (register_platform r c)

variable {r : Registry} {c : Registration} {m : Nat}

theorem hasMaterial_eq (alone : r.parents = []) (m : Nat) :
    r.hasMaterial m = r.scope.materials.contains m := by
  rw [hasMaterial, scopes, alone, List.any_cons, List.any_nil, Bool.or_false]

theorem isRefused_of_states (info : MaterialInfo) (h : c.states = []) :
    c.isRefused info = false := by
  rw [Registration.isRefused, Registration.blockStates, h]
  simp [Dictionary.erase]

theorem not_namesMaterial (alone : r.parents = [])
    (h : ∀ b ∈ r.scope.names, ∀ e ∈ r.scope.listAt b.2, e.item.material ≠ some m) :
    ¬r.NamesMaterial m := by
  rintro ⟨name, s, hs, i, hi, material⟩
  rw [lookup, Registry.entries?_eq, alone, List.findSome?_nil, Option.or_none,
    Scope.entries?_eq] at hs
  obtain ⟨es, hes, rfl⟩ := Option.map_eq_some_iff.mp hs
  obtain ⟨k, hk, rfl⟩ := Option.map_eq_some_iff.mp hes
  obtain ⟨e, he, rfl⟩ := List.mem_map.mp hi
  exact h _ (Dictionary.mem_of_get? hk) e he material

namespace TopLevel

theorem hasMaterial_register (h : r.TopLevel) (c : Registration) (m : Nat) :
    (r.register c).hasMaterial m = true ↔
      r.hasMaterial m = true ∨
        (r.entries? c.id = none ∧ r.platform.material? c.id = some m) := by
  obtain ⟨fault, o⟩ := exists_outcome_register r c
  rw [hasMaterial_eq h.alone, hasMaterial_eq (h.register c).alone]
  generalize (r.register c).scope = s at o ⊢
  cases o with
  | reference known => simp [known]
  | unknown new missing => simp [missing]
  | refused new material row refused =>
    rw [Scope.contains_mark]
    simp [new, material, eq_comm]
  | repeated new material row accepted found =>
    rw [Scope.bind_materials, Scope.contains_mark]
    simp [new, material, eq_comm]
  | fresh new material row accepted absent =>
    rw [Scope.bind_materials, Scope.contains_mark]
    simp [new, material, eq_comm]

theorem hasItem_register (h : r.TopLevel) (c : Registration) (m : Nat) :
    (r.register c).HasItem m ↔
      r.HasItem m ∨ (r.entries? c.id = none ∧ r.platform.material? c.id = some m ∧
        ∀ info, r.platform.info? m = some info → c.isRefused info = false) := by
  obtain ⟨fault, o⟩ := exists_outcome_register r c
  rw [HasItem, HasItem]
  generalize (r.register c).scope = s at o ⊢
  cases o with
  | reference known => simp [known]
  | unknown new missing => simp [missing]
  | @refused n info new material row refused =>
    rw [Scope.mark_index]
    refine (or_iff_left ?_).symm
    rintro ⟨-, same, accepted⟩
    rw [material] at same
    cases same
    rw [accepted info row] at refused
    cases refused
  | @repeated n info e new material row accepted found =>
    rw [Scope.bind_index, Scope.mark_index]
    have defined := c.isDefined n info
    obtain ⟨he, agrees⟩ := (h.sound.index.equal?_eq_some_iff defined).mp found
    refine (or_iff_left_of_imp ?_).symm
    rintro ⟨-, same, -⟩
    rw [material] at same
    exact ⟨e, he, agrees.material.symm.trans (defined.material.trans same)⟩
  | @fresh n info new material row accepted absent =>
    have defined : (c.entry r.scope.nextSerial n info).item.IsDefined n info := c.isDefined n info
    have entries := h.sound.index.entries_add row defined absent
    have here : (∀ info', r.platform.info? n = some info' → c.isRefused info' = false) := by
      intro info' row'
      rw [row] at row'
      cases row'
      exact accepted
    rw [Scope.bind_index]
    simp only [entries.mem_iff, List.mem_cons, exists_eq_or_imp, defined.material, new, material,
      Option.some_inj, true_and]
    rw [or_comm]
    refine or_congr_right ⟨?_, And.left⟩
    rintro rfl
    exact ⟨rfl, here⟩

theorem withGroups (h : r.TopLevel) (gs : Dictionary VariationGroup) :
    (r.withGroups gs).TopLevel where
  sound := ⟨⟨h.sound.scope.index, h.sound.scope.listed⟩, h.sound.2⟩
  bound := by
    intro s hs
    rcases List.mem_cons.mp hs with rfl | hs
    · exact h.bound r.scope List.mem_cons_self
    · exact h.bound s (List.mem_cons_of_mem _ hs)
  alone := h.alone

theorem mem_index_of_mem_listAt (h : r.TopLevel) {k : Nat} {e : Entry}
    (he : e ∈ r.scope.listAt k) : e ∈ r.scope.index.entries := by
  have listed : r.scope.Lists e := by
    rw [Scope.listAt] at he
    cases hk : r.scope.selectors[k]? with
    | none =>
      rw [hk] at he
      cases he
    | some es =>
      rw [hk] at he
      exact ⟨es, List.mem_of_getElem? hk, he⟩
  have known := h.sound.scope.listed e listed
  rwa [h.alone, List.flatMap_nil, List.append_nil] at known

theorem listsAll_register (h : r.TopLevel) (all : r.ListsAll) (c : Registration) :
    (r.register c).ListsAll := by
  have kept : ∀ e ∈ r.scope.index.entries, ∃ k, e ∈ (r.register c).scope.listAt k := by
    intro e he
    obtain ⟨k, hk⟩ := all e he
    exact ⟨k, (h.bound.listAt_register h.sound c k).subset hk⟩
  obtain ⟨fault, o⟩ := exists_outcome_register r c
  rw [ListsAll]
  generalize (r.register c).scope = s at o kept ⊢
  cases o with
  | reference | unknown => simpa using kept
  | refused | repeated => simpa using kept
  | @fresh n info new material row accepted absent =>
    have defined : (c.entry r.scope.nextSerial n info).item.IsDefined n info := c.isDefined n info
    intro e he
    rw [Scope.bind_index] at he
    -- What was there is listed where it was, and what is new by the selector of the name.
    rcases List.mem_cons.mp ((h.sound.index.entries_add row defined absent).mem_iff.mp he) with
      rfl | he
    · have marked := Scope.SameNames.mark r.scope n
      have own : Scope.Bound { r.scope.mark n with
          index := r.scope.index.add (c.entry r.scope.nextSerial n info)
          nextSerial := r.scope.nextSerial + 1 } :=
        (Scope.SameNames.mk marked.names marked.selectors).bound (h.bound _ List.mem_cons_self)
      exact Scope.exists_mem_listAt_bind own c.name List.mem_cons_self
    · exact kept e he

theorem mentionsAll_register (h : r.TopLevel) (all : r.MentionsAll) (c : Registration) :
    (r.register c).MentionsAll := by
  intro m
  rw [h.hasItem_register, h.hasMaterial_register]
  exact Or.imp (all m) fun found => ⟨found.1, found.2.1⟩

theorem namesAll_register (h : r.TopLevel) (all : r.NamesAll) (kept : ¬r.TakesOver c) :
    (r.register c).NamesAll := by
  intro k hk
  have known : r.scope.listAt k ≠ [] →
      ∃ name, (r.register c).scope.handle? (Text.lowercase name) = some k := by
    intro ne
    obtain ⟨name, hn⟩ := all k ne
    exact ⟨name, (h.retains_register kept).handles _ k hn⟩
  rcases h.sound.register_cases c with ⟨-, same⟩ | ⟨-, es, -, same⟩
  · exact known (same.listAt k ▸ hk)
  · by_cases target : k = r.scope.target c.name
    · refine ⟨c.name.singular, ?_⟩
      rw [same.handle?, Scope.handle?_bind, if_pos (.inl rfl), target]
    · rw [same.listAt, Scope.listAt_bind (h.bound _ List.mem_cons_self), if_neg target] at hk
      exact known hk

theorem listsAll_registerAll (h : r.TopLevel) (all : r.ListsAll) (cs : List Registration) :
    (r.registerAll cs).ListsAll := by
  induction cs generalizing r with
  | nil => exact all
  | cons c cs ih => exact ih (h.register c) (h.listsAll_register all c)

theorem mentionsAll_registerAll (h : r.TopLevel) (all : r.MentionsAll) (cs : List Registration) :
    (r.registerAll cs).MentionsAll := by
  induction cs generalizing r with
  | nil => exact all
  | cons c cs ih => exact ih (h.register c) (h.mentionsAll_register all c)

theorem namesAll_registerAll (h : r.TopLevel) (all : r.NamesAll) {cs : List Registration}
    (kept : r.NeverTakesOver cs) : (r.registerAll cs).NamesAll := by
  induction cs generalizing r with
  | nil => exact all
  | cons c cs ih => exact ih (h.register c) (h.namesAll_register all kept.1) kept.2

theorem namesMaterial_iff (h : r.TopLevel) : r.NamesMaterial m ↔
    ∃ name k, r.scope.handle? (Text.lowercase name) = some k ∧ r.scope.ListsMaterial k m := by
  constructor
  · rintro ⟨name, s, hs, i, hi, material⟩
    obtain ⟨k, hk, types⟩ := h.exists_handle_of_lookup hs
    rw [types] at hi
    obtain ⟨e, he, rfl⟩ := List.mem_map.mp hi
    exact ⟨name, k, hk, e, he, material⟩
  · rintro ⟨name, k, hk, e, he, material⟩
    exact ⟨name, _, lookup_of_entries? (entries?_of_handle? hk), e.item, List.mem_map_of_mem he,
      material⟩

theorem namesMaterial_iff_hasItem (h : r.TopLevel) (all : r.ListsAll) :
    r.NamesMaterial m ↔ r.HasItem m ∧ ¬r.Loses m := by
  rw [h.namesMaterial_iff]
  constructor
  · rintro ⟨name, k, hk, lists⟩
    obtain ⟨e, he, material⟩ := lists
    exact ⟨⟨e, h.mem_index_of_mem_listAt he, material⟩,
      fun lost => lost.2 k ⟨e, he, material⟩ name hk⟩
  · rintro ⟨⟨e, he, material⟩, kept⟩
    obtain ⟨k, hk⟩ := all e he
    by_contra unnamed
    exact kept ⟨⟨k, e, hk, material⟩, fun k' lists name hn => unnamed ⟨name, k', hn, lists⟩⟩

theorem not_loses (all : r.NamesAll) (m : Nat) : ¬r.Loses m := by
  rintro ⟨⟨k, e, he, material⟩, lost⟩
  obtain ⟨name, hn⟩ := all k (List.ne_nil_of_mem he)
  exact lost k ⟨e, he, material⟩ name hn

theorem hasItem_registerAll (h : r.TopLevel) {cs : List Registration}
    (stateless : ∀ c ∈ cs, c.states = [])
    (apart : ∀ c ∈ cs, ∀ d ∈ cs, ¬c.name.HasKey (Text.lowercase d.id)) :
    (r.registerAll cs).HasItem m ↔ r.HasItem m ∨
      ∃ c ∈ cs, r.entries? c.id = none ∧ r.platform.material? c.id = some m := by
  induction cs generalizing r with
  | nil => simp [Registry.registerAll]
  | cons c cs ih =>
    obtain ⟨stateless', rest⟩ := List.forall_mem_cons.mp stateless
    have later := ih (h.register c) rest fun c hc d hd =>
      apart c (List.mem_cons_of_mem _ hc) d (List.mem_cons_of_mem _ hd)
    -- The later definitions are looked up after the first one, which names none of their ids.
    have unnamed : ∀ d ∈ cs, ((r.register c).entries? d.id = none ↔ r.entries? d.id = none) := by
      intro d hd
      rw [(h.register c).entries?_eq_none_iff, h.entries?_eq_none_iff,
        h.handle?_register_eq_none_iff]
      exact and_iff_left fun both =>
        apart c List.mem_cons_self d (List.mem_cons_of_mem _ hd) both.2
    have first := h.hasItem_register c m
    rw [Registry.registerAll, List.foldl_cons, ← Registry.registerAll, later, first]
    simp only [List.mem_cons, exists_eq_or_imp, register_platform,
      isRefused_of_states _ stateless', implies_true, and_true, or_assoc]
    refine or_congr_right (or_congr_right (exists_congr fun d => and_congr_right fun hd => ?_))
    rw [unnamed d hd]

end TopLevel

end Registry

namespace Loader

/-- The registrations that name the materials that no alias has mentioned. -/
def supplements (r : Registry) : List Registration :=
  (missing r).flatMap fun id => (Request.define (missingName id) id).registrations r.group?

theorem registry_addMissing (l : Loader) :
    l.addMissing.registry = l.registry.registerAll (supplements l.registry) := by
  have added := Registers.foldl l
    (fun l' id same => same ▸ Registers.addAlias l' ⟨none, 0⟩ (missingName id) id)
    (missing l.registry)
  exact added.registry

theorem mem_missing {r : Registry} {id : String} : id ∈ missing r ↔
    ∃ m info, r.platform.info? m = some info ∧ r.hasMaterial m = false ∧ info.id = id := by
  rw [missing, List.mem_filterMap]
  constructor
  · rintro ⟨m, hm, found⟩
    obtain ⟨info, hi, rfl⟩ := Option.map_eq_some_iff.mp found
    exact ⟨m, info, hi, by simpa using (List.mem_filter.mp hm).2, rfl⟩
  · rintro ⟨m, info, hi, unmentioned, rfl⟩
    refine ⟨m, List.mem_filter.mpr ⟨List.mem_range.mpr ?_, by simp [unmentioned]⟩, ?_⟩
    · exact (List.getElem?_eq_some_iff.mp hi).1
    · rw [hi, Option.map_some]

def Keyed (rows : List MaterialInfo) : Prop :=
  ∀ row ∈ rows, ∃ key, row.id = "minecraft:" ++ key ∧ ∀ c ∈ key.toList, IsKeyChar c

variable {p : Platform} {rows : List MaterialInfo} {m : Nat} {info : MaterialInfo} {r : Registry}
  {c : Registration}

theorem Keyed.exists_key (keyed : Keyed rows) (table : p.IsTable rows)
    (hm : p.info? m = some info) :
    ∃ key, info.id = "minecraft:" ++ key ∧ ∀ c ∈ key.toList, IsKeyChar c := by
  obtain ⟨row, hr, rfl⟩ := table.listed info (List.mem_of_getElem? hm)
  obtain ⟨key, id, chars⟩ := keyed row hr
  refine ⟨key, ?_, chars⟩
  have qualified : row.id.toList.contains ':' := by
    rw [id, String.toList_append]
    simp
  show namespaced row.id = _
  rw [namespaced, if_pos qualified, id]

theorem Keyed.lower (keyed : Keyed rows) : ∀ row ∈ rows, Text.lowercase row.id = row.id := by
  intro row hr
  obtain ⟨key, id, chars⟩ := keyed row hr
  rw [id]
  exact (isBareId_append chars).lowercase_eq

theorem mem_supplements (keyed : Keyed rows) (table : r.platform.IsTable rows) :
    c ∈ supplements r ↔ ∃ m info, r.platform.info? m = some info ∧ r.hasMaterial m = false ∧
      (∃ d ∈ (keyOf info.id).toList, d ≠ '_') ∧
      c = ⟨missingForms (keyOf info.id), info.id, [], []⟩ := by
  rw [supplements, List.mem_flatMap]
  have asked : ∀ {m info}, r.platform.info? m = some info →
      (c ∈ (Request.define (missingName info.id) info.id).registrations r.group? ↔
        (∃ d ∈ (keyOf info.id).toList, d ≠ '_') ∧
          c = ⟨missingForms (keyOf info.id), info.id, [], []⟩) := by
    intro m info hm
    obtain ⟨key, id, chars⟩ := keyed.exists_key table hm
    rw [id, registrations_missing chars, keyOf_append]
    split
    · rename_i blank
      refine iff_of_false List.not_mem_nil fun named => ?_
      obtain ⟨d, hd, ne⟩ := named.1
      exact ne (of_decide_eq_true (List.all_eq_true.mp blank d hd))
    · rename_i named
      rw [List.mem_singleton]
      refine (and_iff_right ?_).symm
      simpa using named
  constructor
  · rintro ⟨id, hid, hc⟩
    obtain ⟨m, info, hm, unmentioned, rfl⟩ := mem_missing.mp hid
    exact ⟨m, info, hm, unmentioned, (asked hm).mp hc⟩
  · rintro ⟨m, info, hm, unmentioned, hc⟩
    exact ⟨info.id, mem_missing.mpr ⟨m, info, hm, unmentioned, rfl⟩, (asked hm).mpr hc⟩

theorem not_hasKey_missingForms {key id : String} (chars : ∀ c ∈ key.toList, IsKeyChar c)
    (qualified : ':' ∈ id.toList) : ¬(missingForms key).HasKey id := by
  have small : ∀ s : List Char, (∀ c ∈ s, c = ' ' ∨ IsKeyChar c) →
      Text.lowercase (String.ofList s) ≠ id := by
    intro s hs same
    have lower : Text.lowercase (String.ofList s) = String.ofList s := by
      rw [Text.lowercase_eq_self_iff, String.toList_ofList]
      intro c hc
      rcases hs c hc with rfl | hc
      · decide
      · exact hc.isSmall
    rw [lower] at same
    rw [← same, String.toList_ofList] at qualified
    rcases hs ':' qualified with colon | colon
    · cases colon
    · exact absurd colon (by decide +kernel)
  have words : ∀ c ∈ Text.spaced (Platform.replaceChar '_' ' ' key).toList,
      c = ' ' ∨ IsKeyChar c := by
    intro c hc
    rcases Text.mem_spaced hc with hc | hc
    · exact .inl hc
    · exact (mem_replaced hc).imp_right fun h => chars c h.1
  rintro (singular | plural)
  · exact small _ words singular.symm
  · refine small _ ?_ plural.symm
    intro c hc
    rcases List.mem_append.mp hc with hc | hc
    · exact words c hc
    · rw [List.mem_singleton.mp hc]
      exact .inr (by decide +kernel)

theorem hasItem_supplements (h : r.TopLevel) (keyed : Keyed rows) (table : r.platform.IsTable rows)
    (hm : r.platform.info? m = some info) :
    (r.registerAll (supplements r)).HasItem m ↔ r.HasItem m ∨
      (r.hasMaterial m = false ∧ (∃ d ∈ (keyOf info.id).toList, d ≠ '_') ∧
        r.contains info.id = false) := by
  have found : ∀ {n info}, r.platform.info? n = some info → r.platform.material? info.id = some n :=
    table.material?_id keyed.lower
  rw [h.hasItem_registerAll]
  · refine or_congr_right ⟨?_, ?_⟩
    · rintro ⟨c, hc, new, material⟩
      obtain ⟨n, info', hn, unmentioned, named, rfl⟩ := (mem_supplements keyed table).mp hc
      have same : n = m := Option.some.inj ((found hn).symm.trans material)
      subst same
      rw [hm, Option.some_inj] at hn
      subst hn
      exact ⟨unmentioned, named, by rw [Registry.contains, new]; rfl⟩
    · rintro ⟨unmentioned, named, new⟩
      refine ⟨_, (mem_supplements keyed table).mpr ⟨m, info, hm, unmentioned, named, rfl⟩, ?_,
        found hm⟩
      rwa [Registry.contains, Option.isSome_eq_false_iff, Option.isNone_iff_eq_none] at new
  · intro c hc
    obtain ⟨n, info', -, -, -, rfl⟩ := (mem_supplements keyed table).mp hc
    rfl
  · intro c hc d hd
    obtain ⟨n, info', hn, -, -, rfl⟩ := (mem_supplements keyed table).mp hc
    obtain ⟨k, info'', hk, -, -, rfl⟩ := (mem_supplements keyed table).mp hd
    obtain ⟨key, id, chars⟩ := keyed.exists_key table hn
    obtain ⟨key', id', chars'⟩ := keyed.exists_key table hk
    have qualified : ':' ∈ (Text.lowercase info''.id).toList := by
      rw [id', (isBareId_append chars').lowercase_eq, String.toList_append]
      simp
    simp only [id, keyOf_append]
    exact not_hasKey_missingForms chars qualified

section Text

variable (p : Platform) (cs : Conditions) (source : Option String) (text : String)

theorem text_topLevel {l : Loader} (hl : l = (start (.empty p) cs).text source text) :
    l.registry.TopLevel := by
  obtain ⟨gs, loaded⟩ := exists_registry_text p cs source text
  rw [hl, loaded]
  exact ((Registry.TopLevel.empty p).registerAll _).withGroups gs

theorem text_platform {l : Loader} (hl : l = (start (.empty p) cs).text source text) :
    l.registry.platform = p := by
  obtain ⟨gs, loaded⟩ := exists_registry_text p cs source text
  rw [hl, loaded, Registry.withGroups_platform, Registry.registerAll_platform]
  rfl

theorem text_listsAll {l : Loader} (hl : l = (start (.empty p) cs).text source text) :
    l.registry.ListsAll := by
  obtain ⟨gs, loaded⟩ := exists_registry_text p cs source text
  rw [hl, loaded]
  exact ((Registry.TopLevel.empty p).listsAll_registerAll (List.forall_mem_nil _) _).withGroups gs

theorem text_mentionsAll {l : Loader} (hl : l = (start (.empty p) cs).text source text) :
    l.registry.MentionsAll := by
  obtain ⟨gs, loaded⟩ := exists_registry_text p cs source text
  rw [hl, loaded]
  have empty : (Registry.empty p).MentionsAll := by
    rintro m ⟨e, he, -⟩
    cases he
  exact ((Registry.TopLevel.empty p).mentionsAll_registerAll empty _).withGroups gs

theorem not_loses_addMissing {l : Loader} (hl : l = (start (.empty p) cs).text source text)
    (kept : (Registry.empty p).NeverTakesOver (registrations cs text ++ supplements l.registry))
    (m : Nat) : ¬l.addMissing.registry.Loses m := by
  obtain ⟨gs, loaded⟩ := exists_registry_text p cs source text
  have names : ((Registry.empty p).registerAll
      (registrations cs text ++ supplements l.registry)).NamesAll :=
    (Registry.TopLevel.empty p).namesAll_registerAll (fun k none => absurd rfl none) kept
  have run : l.addMissing.registry = ((Registry.empty p).registerAll
      (registrations cs text ++ supplements l.registry)).withGroups gs := by
    rw [registry_addMissing, Registry.registerAll_append, ← Registry.registerAll_withGroups,
      ← loaded, ← hl]
  rw [run]
  exact Registry.TopLevel.not_loses (names.withGroups gs) m

end Text

/-- Once every unmentioned material is named, one that has an item is listed by a name just if it
was mentioned, or has a key with more than underscores and an id that is no name, and if it has not
lost its names. -/
theorem namesMaterial_addMissing (keyed : Keyed rows) (version : Version) (legacy : Bool)
    (es : List EnchantmentInfo) (cs : Conditions) (source : Option String) (text : String) :
    let p := Platform.build version legacy rows es
    let l := (start (.empty p) cs).text source text
    ∀ m info, p.info? m = some info → (l.registry.hasMaterial m = true → l.registry.HasItem m) →
      (l.addMissing.registry.NamesMaterial m ↔
        (l.registry.hasMaterial m = true ∨
          ((∃ c ∈ (keyOf info.id).toList, c ≠ '_') ∧ l.registry.contains info.id = false)) ∧
        ¬l.addMissing.registry.Loses m) ∧
      ((Registry.empty p).NeverTakesOver (registrations cs text ++ supplements l.registry) →
        ¬l.addMissing.registry.Loses m) := by
  intro p l m info hm settled
  have table : p.IsTable rows := Platform.isTable_build version legacy rows es
  have hl : l = (start (.empty p) cs).text source text := rfl
  have first := text_topLevel p cs source text hl
  have lists := text_listsAll p cs source text hl
  have mentions := text_mentionsAll p cs source text hl
  have lost := not_loses_addMissing p cs source text hl
  rw [← text_platform p cs source text hl] at table hm
  clear_value l
  refine ⟨?_, fun kept => lost kept m⟩
  rw [registry_addMissing, (first.registerAll _).namesMaterial_iff_hasItem
    (first.listsAll_registerAll lists _), hasItem_supplements first keyed table hm]
  refine and_congr_left fun _ => ?_
  cases mentioned : l.registry.hasMaterial m with
  | true => simp [settled mentioned]
  | false =>
    have unlisted : ¬l.registry.HasItem m := fun has => by simp [mentions m has] at mentioned
    simp [unlisted]

theorem namesMaterial_addMissing_of_stone :
    let rows : List MaterialInfo :=
      [⟨"minecraft:stone", true, 0⟩, ⟨"minecraft:bone_block", true, 0⟩]
    let p := Platform.build ⟨[1, 20, 4]⟩ false rows []
    let text := "rocks:\n  rock¦s = stone\n"
    let l := (start (.empty p) []).text none text
    Keyed rows ∧ p.info? 0 = rows[0]? ∧ p.info? 1 = rows[1]? ∧
      l.registry.hasMaterial 0 = true ∧ l.registry.HasItem 0 ∧
      l.registry.hasMaterial 1 = false ∧
      (Registry.empty p).NeverTakesOver (registrations [] text ++ supplements l.registry) ∧
      l.addMissing.registry.NamesMaterial 0 ∧ l.addMissing.registry.NamesMaterial 1 := by
  intro rows p text l
  have keyed : Keyed rows := by
    intro row hr
    rcases List.mem_cons.mp hr with rfl | hr
    · exact ⟨"stone", rfl, Text.forall_of_all (by decide +kernel)⟩
    · rw [List.mem_singleton.mp hr]
      exact ⟨"bone_block", rfl, Text.forall_of_all (by decide +kernel)⟩
  have mentioned : l.registry.hasMaterial 0 = true := by decide +kernel
  have has : l.registry.HasItem 0 := by decide +kernel
  have unmentioned : l.registry.hasMaterial 1 = false := by decide +kernel
  have unnamed : l.registry.contains "minecraft:bone_block" = false := by decide +kernel
  have kept : (Registry.empty p).NeverTakesOver
      (registrations [] text ++ supplements l.registry) := by decide +kernel
  have named := namesMaterial_addMissing keyed ⟨[1, 20, 4]⟩ false [] [] none text
  refine ⟨keyed, by decide +kernel, by decide +kernel, mentioned, has, unmentioned, kept, ?_, ?_⟩
  · have stone := named 0 ⟨"minecraft:stone", true, 0⟩ (by decide +kernel) fun _ => has
    exact stone.1.mpr ⟨.inl mentioned, stone.2 kept⟩
  · have bone := named 1 ⟨"minecraft:bone_block", true, 0⟩ (by decide +kernel)
      fun mentioned => absurd (unmentioned.symm.trans mentioned) Bool.false_ne_true
    exact bone.1.mpr ⟨.inr ⟨⟨'b', by decide +kernel, by decide⟩, unnamed⟩, bone.2 kept⟩

theorem materials_left_unnamed :
    let rows (keys : List String) : List MaterialInfo :=
      keys.map fun key => ⟨"minecraft:" ++ key, true, 0⟩
    let load (keys : List String) (text : String) : Registry :=
      ((start (.empty (Platform.build ⟨[1, 20, 4]⟩ false (rows keys) [])) []).text none
        text).addMissing.registry
    Keyed (rows ["stone", "dirt"]) ∧ Keyed (rows ["_"]) ∧
      ¬(load ["stone", "dirt"] "rocks:\n  minecraft:stone = dirt\n").NamesMaterial 0 ∧
      ¬(load ["_"] "").NamesMaterial 0 ∧
      ¬(load ["stone", "dirt"]
        "rocks:\n  bc = stone\n  b = dirt\n  b¦c = dirt\n").NamesMaterial 0 := by
  intro rows load
  have keyed : ∀ keys : List String, (keys.all fun key => key.toList.all (IsKeyChar ·)) = true →
      Keyed (rows keys) := by
    intro keys chars row hr
    obtain ⟨key, hk, rfl⟩ := List.mem_map.mp hr
    exact ⟨key, rfl, Text.forall_of_all (List.all_eq_true.mp chars key hk)⟩
  exact ⟨keyed _ (by decide +kernel), keyed _ (by decide +kernel),
    Registry.not_namesMaterial (by decide +kernel) (by decide +kernel),
    Registry.not_namesMaterial (by decide +kernel) (by decide +kernel),
    Registry.not_namesMaterial (by decide +kernel) (by decide +kernel)⟩

end Loader

end ItemLexicon
