import ItemLexicon.Proofs.BestMatch

namespace ItemLexicon.Registry

variable {r : Registry} {i : Item}

/-- The registry itself has no entry that describes the item. -/
def IsSilent (r : Registry) (i : Item) : Prop :=
  (r.ownBucket i).bare = none ∧
    ∀ x ∈ (r.ownBucket i).alternatives, i.compare r.platform.legacy x.item = .different

theorem entry_find_eq_none_iff : (r.find i).entry = none ↔ r.IsSilent i := by
  have found := r.finds_find i
  generalize r.find i = f at found
  constructor
  · intro he
    cases found with
    | alternative => cases he
    | bare => cases he
    | nothing bare different => exact ⟨bare, different⟩
  · rintro ⟨bare, different⟩
    cases found with
    | alternative best =>
      cases best with
      | present split alike => exact absurd (different _ (by simp [split])) alike
    | bare bare' =>
      rw [bare] at bare'
      cases bare'
    | nothing => rfl

theorem isAnything_of_describing? {d : Entry} (h : r.describing? i = some d) :
    i.isAnything = false := by
  obtain ⟨s, -, hs⟩ := List.exists_of_findSome?_eq_some h
  cases hm : i.material with
  | none =>
    rw [Index.find, Index.bucketOf?, hm] at hs
    cases hs
  | some m => exact Item.isAnything_eq_false_iff.mpr ⟨m, hm⟩

theorem describing?_layer_run (g : Registry) (ops : List Operation) (i : Item) :
    (g.layer.run ops).describing? i =
      ((g.layer.run ops).find i).entry.or (g.describing? i) := by
  rw [describing?, scopes, List.findSome?_cons, run_platform, run_parents, find, run_platform]
  cases (Index.find _ _ i).entry <;> rfl

theorem Sound.rank_find_le_of_considers (h : r.Sound) (hi : i.isAnything = false) {x : Entry}
    (hx : (r.ownBucket i).Considers r.platform.legacy i x) :
    (r.find i).quality.rank ≤ (i.compare r.platform.legacy x.item).rank := by
  obtain ⟨m, hm⟩ := Item.isAnything_eq_false_iff.mp hi
  rw [find_eq_find_ownBucket]
  exact (h.ownBucket hm).rank_find_le_of_considers hi hx

/-- Every item that a registry can name has a name in a registry over it.  The name is as good there
exactly if the upper registry is silent, and then it is the same, or else considers an entry that is
as good. -/
theorem Reachable.describing?_layer {g : Registry} (h : g.Reachable) (ops : List Operation)
    {i : Item} {d : Entry} (hd : g.describing? i = some d) :
    ∃ e, (g.layer.run ops).describing? i = some e ∧
      ((g.layer.run ops).IsSilent i → e = d) ∧
      (¬(g.layer.run ops).IsSilent i → e ∈ ((g.layer.run ops).ownBucket i).entries) ∧
      ((i.compare g.platform.legacy e.item).isAtLeast (i.compare g.platform.legacy d.item) = true ↔
        (g.layer.run ops).IsSilent i ∨
          ∃ x, ((g.layer.run ops).ownBucket i).Considers g.platform.legacy i x ∧
            (i.compare g.platform.legacy x.item).isAtLeast
              (i.compare g.platform.legacy d.item) = true) := by
  have sound := (h.layer.run ops).sound
  have platform : (g.layer.run ops).platform = g.platform := run_platform ..
  rw [describing?_layer_run, hd]
  have found := (g.layer.run ops).finds_find i
  simp only [Quality.isAtLeast_iff, ← platform]
  cases he : ((g.layer.run ops).find i).entry with
  | none =>
    have silent := entry_find_eq_none_iff.mp he
    exact ⟨d, rfl, fun _ => rfl, fun heard => absurd silent heard, iff_of_true le_rfl (.inl silent)⟩
  | some e =>
    have heard : ¬(g.layer.run ops).IsSilent i := by
      rw [← entry_find_eq_none_iff, he]
      exact Option.some_ne_none e
    have considered := found.considers he
    refine ⟨e, rfl, fun silent => absurd silent heard, fun _ => considered.mem_entries, ?_⟩
    rw [or_iff_right heard]
    constructor
    · intro close
      exact ⟨e, considered, close⟩
    · rintro ⟨x, hx, close⟩
      rw [← found.quality_eq he]
      exact (sound.rank_find_le_of_considers (isAnything_of_describing? hd) hx).trans close

theorem describing?_layer_of_swords :
    let p : Platform := ⟨⟨[1, 20, 4]⟩, false, [⟨"minecraft:diamond_sword", false, 1561⟩], []⟩
    let define (name : String) (tags : Tags) : Operation :=
      .register ⟨⟨name, name, .a⟩, "diamond_sword", tags, []⟩
    let g := (empty p).run [define "sword" [], define "worn sword" [("Damage", .int 10)]]
    let s := g.layer.run [define "blade" []]
    let i : Item := .ofDefinition 0 ⟨"minecraft:diamond_sword", false, 1561⟩
      [("Damage", .int 10)] []
    ∃ d e, g.describing? i = some d ∧ s.describing? i = some e ∧
      d.name.singular = "worn sword" ∧ e.name.singular = "blade" ∧
      ((i.compare false e.item).isAtLeast (i.compare false d.item) = true ↔
        s.IsSilent i ∨ ∃ x, (s.ownBucket i).Considers false i x ∧
          (i.compare false x.item).isAtLeast (i.compare false d.item) = true) := by
  intro p define g s i
  have reachable : Reachable g := (Reachable.empty p).run _
  have modern : g.platform.legacy = false := by
    rw [run_platform]
    rfl
  have lower : (g.describing? i).map (fun d => d.name.singular) = some "worn sword" := by decide
  have upper : (s.describing? i).map (fun e => e.name.singular) = some "blade" := by decide
  obtain ⟨d, hd, named⟩ := Option.map_eq_some_iff.mp lower
  clear_value g i
  obtain ⟨e, he, -, -, close⟩ := reachable.describing?_layer [define "blade" []] hd
  rw [modern] at close
  rw [he, Option.map_some, Option.some_inj] at upper
  exact ⟨d, e, hd, he, named, upper, close⟩

theorem upper_registry_names_worse :
    let p : Platform := ⟨⟨[1, 20, 4]⟩, false, [⟨"minecraft:diamond_sword", false, 1561⟩], []⟩
    let named (name : String) : Tags := [("display", .compound [("Name", .text name)])]
    let define (name text : String) : Operation :=
      .register ⟨⟨name, name, .a⟩, "diamond_sword", named text, []⟩
    let g := (empty p).run [define "blade" "A"]
    let s := g.layer.run [define "knife" "B"]
    let i : Item := .ofDefinition 0 ⟨"minecraft:diamond_sword", false, 1561⟩ (named "A") []
    let quality (e : Option Entry) := e.map fun e => (e.name.singular, i.compare false e.item)
    quality (g.describing? i) = some ("blade", .exact) ∧
      quality (s.describing? i) = some ("knife", .sameMaterial) := by
  decide

end ItemLexicon.Registry
