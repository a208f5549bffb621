import ItemLexicon.Proofs.SoundRegistry

namespace ItemLexicon.Registry

@[simp] theorem registerAll_parents (r : Registry) (cs : List Registration) :
    (r.registerAll cs).parents = r.parents := by
  induction cs generalizing r with
  | nil => rfl
  | cons c cs ih => exact (ih (r.register c)).trans (register_parents r c)

namespace Sound

variable {r : Registry}

theorem registerAll (h : r.Sound) (cs : List Registration) : (r.registerAll cs).Sound := by
  induction cs generalizing r with
  | nil => exact h
  | cons c cs ih => exact ih (h.register c)

theorem find_eq (h : r.Sound) {e : Entry} (he : e ∈ r.scope.index.entries) :
    r.find e.item = ⟨.exact, some e⟩ := h.index.find_eq he

theorem eq_of_item_eq (h : r.Sound) {e e' : Entry} (he : e ∈ r.scope.index.entries)
    (he' : e' ∈ r.scope.index.entries) (same : e.item = e'.item) : e = e' := by
  have found := h.find_eq he
  rw [same, h.find_eq he'] at found
  cases found
  rfl

end Sound

/-- The definition is that of the entry, and nothing that is there matches its item exactly. -/
def Introduces (r : Registry) (c : Registration) (e : Entry) : Prop :=
  ∃ m info, r.platform.material? c.id = some m ∧ r.platform.info? m = some info ∧
    r.equal? (c.item m info) = none ∧ e = c.entry r.scope.nextSerial m info

theorem Introduces.name_eq {r : Registry} {c : Registration} {e : Entry} (h : r.Introduces c e) :
    e.name = c.name := by
  obtain ⟨m, info, -, -, -, rfl⟩ := h
  rfl

theorem Introduces.id_eq {r : Registry} {c : Registration} {e : Entry} (h : r.Introduces c e) :
    e.id = c.id := by
  obtain ⟨m, info, -, -, -, rfl⟩ := h
  rfl

theorem mem_entries_register {r : Registry} (h : r.Sound) {c : Registration} {e : Entry}
    (he : e ∈ (r.register c).scope.index.entries) :
    e ∈ r.scope.index.entries ∨ r.Introduces c e := by
  obtain ⟨fault, o⟩ := exists_outcome_register r c
  rcases o.index_cases with same | ⟨m, info, material, row, absent, added⟩
  · rw [same] at he
    exact .inl he
  · rw [added] at he
    have perm := h.index.entries_add (e := c.entry r.scope.nextSerial m info) row
      (c.isDefined m info) absent
    rcases List.mem_cons.mp (perm.mem_iff.mp he) with rfl | he
    · exact .inr ⟨m, info, material, row, absent, rfl⟩
    · exact .inl he

theorem exists_introduction {r : Registry} (h : r.Sound) {cs : List Registration} {e : Entry}
    (new : e ∉ r.scope.index.entries) (he : e ∈ (r.registerAll cs).scope.index.entries) :
    ∃ before c after, cs = before ++ c :: after ∧ (r.registerAll before).Introduces c e ∧
      e ∈ (r.registerAll (before ++ [c])).scope.index.entries := by
  induction cs generalizing r with
  | nil => exact absurd he new
  | cons c cs ih =>
    -- the entry is new at this step, or it is still missing after it
    by_cases hc : e ∈ (r.register c).scope.index.entries
    · exact ⟨[], c, cs, rfl, (mem_entries_register h hc).resolve_left new, hc⟩
    · obtain ⟨before, d, after, rfl, introduced, mem⟩ := ih (h.register c) hc he
      exact ⟨c :: before, d, after, rfl, introduced, mem⟩

theorem describing?_of_find {r : Registry} {i : Item} {q : Quality} {e : Entry}
    (h : r.find i = ⟨q, some e⟩) : r.describing? i = some e := by
  rw [find] at h
  rw [describing?, scopes, List.findSome?_cons, h]

/-- An item that some name lists is found as the entry that holds it, the only one, and its name and
id are those of the registration that introduced it. -/
theorem find_of_entries? (p : Platform) (cs : List Registration) {name : String}
    {es : List Entry} {e : Entry}
    (known : ((empty p).registerAll cs).scope.entries? name = some es) (he : e ∈ es) :
    ((empty p).registerAll cs).find e.item = ⟨.exact, some e⟩ ∧
    e ∈ ((empty p).registerAll cs).scope.index.entries ∧
    (∀ x ∈ ((empty p).registerAll cs).scope.index.entries, x.item = e.item → x = e) ∧
    ∃ before c after, cs = before ++ c :: after ∧
      ((empty p).registerAll before).Introduces c e ∧
      e ∈ ((empty p).registerAll (before ++ [c])).scope.index.entries ∧
      ((empty p).registerAll cs).nameOf? e.item = some c.name ∧
      ((empty p).registerAll cs).idOf? e.item = some c.id := by
  have sound := (Sound.empty p).registerAll cs
  have mem : e ∈ ((empty p).registerAll cs).scope.index.entries := by
    have listed := sound.scope.listed e (Scope.lists_of_entries? known he)
    rw [registerAll_parents] at listed
    simpa [empty] using listed
  have found := sound.find_eq mem
  have described := describing?_of_find found
  obtain ⟨before, c, after, split, introduced, first⟩ :=
    exists_introduction (.empty p) List.not_mem_nil mem
  refine ⟨found, mem, ?_, before, c, after, split, introduced, first, ?_, ?_⟩
  · intro x hx same
    exact sound.eq_of_item_eq hx mem same
  · rw [nameOf?, described, Option.map_some, introduced.name_eq]
  · rw [idOf?, described, Option.map_some, introduced.id_eq]

theorem find_of_second_name :
    let p : Platform := ⟨⟨[1, 20, 4]⟩, false, [⟨"minecraft:diamond_sword", false, 1561⟩], []⟩
    let sword : Registration := ⟨⟨"sword", "swords", .a⟩, "diamond_sword", [], []⟩
    let worn : Registration :=
      ⟨⟨"worn sword", "worn swords", .a⟩, "diamond_sword", [("Damage", .int 10)], []⟩
    let again : Registration := ⟨⟨"blade", "blades", .a⟩, "minecraft:diamond_sword", [], []⟩
    let cs := [sword, worn, again, { worn with id := "stick" }]
    ∃ e es, ((empty p).registerAll cs).scope.entries? "blades" = some es ∧ e ∈ es ∧
      e.name = sword.name ∧ ((empty p).registerAll cs).find e.item = ⟨.exact, some e⟩ := by
  intro p sword worn again cs
  have names : (((empty p).registerAll cs).scope.entries? "blades").map (List.map Entry.name) =
      some [sword.name] := by decide
  obtain ⟨es, known, hs⟩ := Option.map_eq_some_iff.mp names
  obtain ⟨e, he, hn⟩ : ∃ e ∈ es, e.name = sword.name := by
    apply List.mem_map.mp
    rw [hs]
    exact List.mem_singleton_self _
  exact ⟨e, es, known, he, hn, (find_of_entries? p cs known he).1⟩

end ItemLexicon.Registry
