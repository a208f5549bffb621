import ItemLexicon.Proofs.SoundRegistry

/-! The registries that come about by registering aliases, adding groups, clearing, and putting new
registries over old ones, in any order.  All of them are sound. -/

namespace ItemLexicon

inductive Operation
  | register (c : Registration)
  | group (name : String) (g : VariationGroup)
  | clear

namespace Registry

def apply (r : Registry) : Operation → Registry
  | .register c => r.register c
  | .group name g => r.addGroup name g
  | .clear => r.clear

def run (r : Registry) (ops : List Operation) : Registry := ops.foldl apply r

@[simp] theorem apply_platform (r : Registry) (op : Operation) :
    (r.apply op).platform = r.platform := by
  cases op with
  | register c => exact register_platform r c
  | group name g => rfl
  | clear => rfl

@[simp] theorem apply_parents (r : Registry) (op : Operation) :
    (r.apply op).parents = r.parents := by
  cases op with
  | register c => exact register_parents r c
  | group name g => rfl
  | clear => rfl

@[simp] theorem run_platform (r : Registry) (ops : List Operation) :
    (r.run ops).platform = r.platform := by
  induction ops generalizing r with
  | nil => rfl
  | cons op ops ih => exact (ih (r.apply op)).trans (apply_platform r op)

@[simp] theorem run_parents (r : Registry) (ops : List Operation) :
    (r.run ops).parents = r.parents := by
  induction ops generalizing r with
  | nil => rfl
  | cons op ops ih => exact (ih (r.apply op)).trans (apply_parents r op)

inductive Reachable : Registry → Prop
  | empty (p : Platform) : Reachable (.empty p)
  | layer {r : Registry} (h : Reachable r) : Reachable r.layer
  | apply {r : Registry} (op : Operation) (h : Reachable r) : Reachable (r.apply op)

namespace Sound

variable {r : Registry}

theorem apply (h : r.Sound) (op : Operation) : (r.apply op).Sound := by
  cases op with
  | register c => exact h.register c
  | group name g => exact ⟨⟨h.index, h.scope.listed⟩, h.2⟩
  | clear => exact ⟨.empty .., h.2⟩

theorem grows_apply (h : r.Sound) {op : Operation} (hop : op ≠ .clear) :
    r.scope.index.Grows (r.apply op).scope.index := by
  cases op with
  | register c => exact h.grows_register c
  | group name g => exact .refl _
  | clear => exact absurd rfl hop

theorem grows_run (h : r.Sound) {ops : List Operation} (hops : .clear ∉ ops) :
    r.scope.index.Grows (r.run ops).scope.index := by
  induction ops generalizing r with
  | nil => exact .refl _
  | cons op ops ih =>
    rw [List.mem_cons, not_or] at hops
    exact (h.grows_apply (Ne.symm hops.1)).trans (ih (h.apply op) hops.2)

end Sound

theorem Reachable.run {r : Registry} (h : Reachable r) (ops : List Operation) :
    Reachable (r.run ops) := by
  induction ops generalizing r with
  | nil => exact h
  | cons op ops ih => exact ih (h.apply op)

theorem Reachable.sound {r : Registry} (h : Reachable r) : r.Sound := by
  induction h with
  | empty p => exact .empty p
  | layer _ ih => exact ih.layer
  | apply op _ ih => exact ih.apply op

/-- How a registry represents its items. -/
structure Invariant (r : Registry) : Prop where
  apart : ∀ m b, (m, b) ∈ r.scope.index → b.entries.Pairwise fun e e' =>
    e.item.compare r.platform.legacy e'.item ≠ .exact ∧
      e'.item.compare r.platform.legacy e.item ≠ .exact
  placed : ∀ m b, (m, b) ∈ r.scope.index →
    Index.bucket? m r.scope.index = some b ∧ ∀ e ∈ b.entries, e.item.material = some m
  bare : ∀ m b, (m, b) ∈ r.scope.index →
    (∀ e ∈ b.bare, e.item.isDefault = true) ∧ ∀ e ∈ b.alternatives, e.item.isDefault = false
  kept : ∀ m b e, (m, b) ∈ r.scope.index → b.bare = some e → ∀ ops, .clear ∉ ops →
    ∃ b', Index.bucket? m (r.run ops).scope.index = some b' ∧ b'.bare = some e
  listed : ∀ s ∈ r.scopes, ∀ name es, s.entries? name = some es → ∀ e ∈ es, e ∈ r.numbered

theorem Reachable.invariant {r : Registry} (h : Reachable r) : r.Invariant where
  apart := by
    intro m b hb
    have bucket := h.sound.index.buckets m b (Index.bucket?_of_mem h.sound.index.sorted hb)
    refine bucket.apart.imp_of_mem ?_
    intro e e' he he' apart
    exact ⟨bucket.compare_ne_exact he he' apart, bucket.compare_ne_exact he' he (apart ·.symm)⟩
  placed := by
    intro m b hb
    have found := Index.bucket?_of_mem h.sound.index.sorted hb
    refine ⟨found, ?_⟩
    intro e he
    obtain ⟨info, -, defined⟩ := (h.sound.index.buckets m b found).defined e he
    exact defined.material
  bare := by
    intro m b hb
    have bucket := h.sound.index.buckets m b (Index.bucket?_of_mem h.sound.index.sorted hb)
    exact ⟨bucket.bare, bucket.alternatives⟩
  kept := by
    intro m b e hb he ops hops
    have found := Index.bucket?_of_mem h.sound.index.sorted hb
    exact (h.sound.grows_run hops).bare m b e found he
  listed := by
    intro s hs name es hes e he
    exact h.sound.listed hs (Scope.lists_of_entries? hes he)

theorem invariant_of_swords :
    let p : Platform := ⟨⟨[1, 20, 4]⟩, false, [⟨"minecraft:diamond_sword", false, 1561⟩], []⟩
    let sword : Registration := ⟨⟨"sword", "swords", .a⟩, "diamond_sword", [], []⟩
    let worn : Registration :=
      ⟨⟨"worn sword", "worn swords", .a⟩, "diamond_sword", [("Damage", .int 10)], []⟩
    let r := ((empty p).apply (.register sword)).layer.run
      [.register ⟨⟨"blade", "blades", .a⟩, "sword", [], []⟩,
        .register { sword with name := ⟨"plain sword", "plain swords", .a⟩ }, .register worn]
    r.scope.index.map (fun b => (b.1, b.2.bare.isSome, b.2.alternatives.length)) =
        [(0, true, 1)] ∧ r.Invariant := by
  intro p sword worn r
  have reachable : Reachable r := ((Reachable.empty p).apply _).layer.run _
  exact ⟨by decide, Reachable.invariant reachable⟩

end Registry

end ItemLexicon
