import ItemLexicon.Proofs.TopLevel

namespace ItemLexicon

/-- The one selector begins with the other and goes on with items of it. -/
def Selector.Repeats (s t : Selector) : Prop := s.types <+: t.types ∧ t.types ⊆ s.types

namespace Registry

def ListsUnder (r : Registry) (name : AliasName) (e : Entry) : Prop :=
  ∃ k, r.scope.handle? (Text.lowercase name.singular) = some k ∧
    r.scope.handle? (Text.lowercase name.plural) = some k ∧ e ∈ r.scope.listAt k

theorem ListsUnder.mono {r r' : Registry} (h : r.Retains r') {name : AliasName} {e : Entry}
    (listed : r.ListsUnder name e) : r'.ListsUnder name e := by
  obtain ⟨k, singular, plural, mem⟩ := listed
  exact ⟨k, h.handles _ k singular, h.handles _ k plural, (h.lists k).subset mem⟩

def Finds (r : Registry) (c : Registration) (P : Entry → Prop) : Prop :=
  r.entries? c.id = none → ∀ m info, r.platform.material? c.id = some m →
    r.platform.info? m = some info → c.isRefused info = false →
    ∃ e, r.equal? (c.item m info) = some e ∧ P e

namespace Finds

variable {r : Registry} {c : Registration} {P Q : Entry → Prop}

theorem mono (h : r.Finds c P) (hPQ : ∀ e, P e → Q e) : r.Finds c Q := by
  intro new m info material row accepted
  obtain ⟨e, found, he⟩ := h new m info material row accepted
  exact ⟨e, found, hPQ e he⟩

theorem register (hr : r.TopLevel) (h : r.Finds c P) (d : Registration) :
    (r.register d).Finds c P := by
  intro new m info material row accepted
  rw [register_platform] at material row
  have old := hr.entries?_eq_none_of_register new
  obtain ⟨e, found, he⟩ := h old m info material row accepted
  exact ⟨e, hr.equal?_register found d, he⟩

theorem registerAll (hr : r.TopLevel) (h : r.Finds c P) (ds : List Registration) :
    (r.registerAll ds).Finds c P := by
  induction ds generalizing r with
  | nil => exact h
  | cons d ds ih => exact ih (hr.register d) (h.register hr d)

theorem of_register (hr : r.TopLevel) (c : Registration) :
    (r.register c).Finds c ((r.register c).ListsUnder c.name) := by
  intro new m info material row accepted
  rw [register_platform] at material row
  have old := hr.entries?_eq_none_of_register new
  rcases hr.sound.register_cases c with ⟨failed, -⟩ | ⟨-, es, brings, same⟩
  · exact absurd (attempt_of_item material row accepted) failed
  · cases brings with
    | reference known =>
      rw [old] at known
      cases known
    | @item m' info' e _ material' row' _ found =>
      rw [material] at material'
      cases material'
      rw [row] at row'
      cases row'
      refine ⟨e, found, r.scope.target c.name, ?_, ?_, ?_⟩
      · rw [same.handle?, Scope.handle?_bind, if_pos (.inl rfl)]
      · rw [same.handle?, Scope.handle?_bind, if_pos (.inr rfl)]
      · rw [same.listAt, Scope.listAt_bind (hr.bound _ List.mem_cons_self), if_pos rfl]
        exact List.mem_append_right _ List.mem_cons_self

end Finds

/-- Everything that the forms of an alias name lists is listed. -/
def Covers (r : Registry) (c : Registration) : Prop :=
  ∀ listed, r.lookup c.id = some listed → ∀ form ∈ [c.name.singular, c.name.plural],
    ∃ s, r.lookup form = some s ∧ listed.types ⊆ s.types

/-- The second registry differs from the first in that its selectors repeat items. -/
structure Repeats (r s : Registry) : Prop where
  handles : ∀ key, s.scope.handle? key = r.scope.handle? key
  kept : ∀ k, r.scope.listAt k <+: s.scope.listAt k
  items : ∀ k, (s.scope.listAt k).map Entry.item ⊆ (r.scope.listAt k).map Entry.item

namespace Repeats

variable {r s : Registry} {c : Registration}

theorem refl (r : Registry) : r.Repeats r :=
  ⟨fun _ => rfl, fun _ => List.prefix_rfl, fun _ => List.Subset.refl _⟩

theorem lookup (h : r.Repeats s) (hr : r.TopLevel) (hs : s.TopLevel) (n : String) :
    Option.Rel Selector.Repeats (r.lookup n) (s.lookup n) := by
  rw [hr.lookup_eq, hs.lookup_eq, h.handles]
  cases r.scope.handle? (Text.lowercase n) with
  | none => exact .none
  | some k => exact .some ⟨(h.kept k).map Entry.item, h.items k⟩

theorem exists_handle (h : r.Repeats s) (hr : r.TopLevel) (hs : s.TopLevel)
    (found : s.Finds c (r.ListsUnder c.name)) (covered : r.Covers c) (kept : ¬s.TakesOver c)
    (ok : (s.attempt c).1 = none) {es : List Entry} (brings : s.Brings c es) :
    ∃ k, r.scope.handle? (Text.lowercase c.name.singular) = some k ∧
      r.scope.handle? (Text.lowercase c.name.plural) = some k ∧
      es.map Entry.item ⊆ (r.scope.listAt k).map Entry.item := by
  cases brings with
  | reference known =>
    rw [hs.entries?_eq, h.handles, Option.map_eq_some_iff] at known
    obtain ⟨j, hj, rfl⟩ := known
    have listed : r.lookup c.id = some (.ofItems ((r.scope.listAt j).map Entry.item)) := by
      rw [hr.lookup_eq, hj, Option.map_some]
    obtain ⟨t, ht, covers⟩ := covered _ listed c.name.singular (by simp)
    obtain ⟨t', ht', -⟩ := covered _ listed c.name.plural (by simp)
    obtain ⟨k, singular, types⟩ := hr.exists_handle_of_lookup ht
    obtain ⟨k', plural, -⟩ := hr.exists_handle_of_lookup ht'
    have same : k = k' := by
      by_contra ne
      refine kept ⟨ok, ?_⟩
      rw [Scope.BindsApart, h.handles, h.handles, singular, plural]
      exact ⟨Option.some_ne_none k, Option.some_ne_none k', fun eq => ne (Option.some.inj eq)⟩
    refine ⟨k, singular, same ▸ plural, ?_⟩
    rw [← types]
    exact List.Subset.trans (h.items j) covers
  | @item m info e new material row accepted after =>
    obtain ⟨e', before, k, singular, plural, listed⟩ := found new m info material row accepted
    have same := hs.equal?_register before c
    rw [after] at same
    cases same
    refine ⟨k, singular, plural, ?_⟩
    rw [List.map_singleton, List.cons_subset]
    exact ⟨List.mem_map_of_mem listed, List.nil_subset _⟩

theorem register (h : r.Repeats s) (hr : r.TopLevel) (hs : s.TopLevel)
    (found : s.Finds c (r.ListsUnder c.name)) (covered : r.Covers c) (kept : ¬s.TakesOver c) :
    r.Repeats (s.register c) := by
  rcases hs.sound.register_cases c with ⟨-, same⟩ | ⟨ok, es, brings, same⟩
  · constructor
    · intro key
      rw [same.handle?, h.handles]
    · intro k
      rw [same.listAt]
      exact h.kept k
    · intro k
      rw [same.listAt]
      exact h.items k
  · obtain ⟨k, singular, plural, known⟩ := h.exists_handle hr hs found covered kept ok brings
    have target : s.scope.target c.name = k := by
      rw [Scope.target, Scope.target?, h.handles, singular]
      rfl
    have own := hs.bound s.scope List.mem_cons_self
    constructor
    · intro key
      -- the forms are bound anew to what they are bound to
      rw [same.handle?, Scope.handle?_bind, target]
      split
      · rename_i form
        rcases form with rfl | rfl
        · rw [singular]
        · rw [plural]
      · exact h.handles key
    · intro n
      exact (h.kept n).trans (hs.bound.listAt_register hs.sound c n)
    · intro n
      rw [same.listAt, Scope.listAt_bind own, target]
      split
      · rename_i eq
        rw [eq, List.map_append]
        exact List.append_subset.mpr ⟨h.items k, known⟩
      · exact h.items n

end Repeats

theorem Repeats.registerAll {r s : Registry} {cs : List Registration} (h : r.Repeats s)
    (hr : r.TopLevel) (hs : s.TopLevel) (found : ∀ c ∈ cs, s.Finds c (r.ListsUnder c.name))
    (covered : ∀ c ∈ cs, r.Covers c) (kept : s.NeverTakesOver cs) :
    r.Repeats (s.registerAll cs) := by
  induction cs generalizing s with
  | nil => exact h
  | cons c cs ih =>
    have step := h.register hr hs (found c List.mem_cons_self) (covered c List.mem_cons_self) kept.1
    refine ih step (hs.register c) ?_ (fun d hd => covered d (List.mem_cons_of_mem _ hd)) kept.2
    exact fun d hd => (found d (List.mem_cons_of_mem _ hd)).register hs c

namespace TopLevel

variable {r : Registry} {c : Registration} {cs : List Registration} {name : AliasName}

theorem knows_of_listsUnder (h : r.TopLevel) {e : Entry} (listed : r.ListsUnder name e) :
    r.Knows name := by
  obtain ⟨k, singular, plural, -⟩ := listed
  rw [Knows, h.contains_iff, h.contains_iff, singular, plural]
  exact ⟨nofun, nofun⟩

theorem finds_of_mem (h : r.TopLevel) (hc : c ∈ cs) : (r.registerAll cs).Finds c fun e =>
    (r.registerAll cs).Knows c.name ∧
      (r.NeverTakesOver cs → (r.registerAll cs).ListsUnder c.name e) := by
  obtain ⟨before, after, rfl⟩ := List.append_of_mem hc
  have here := (h.registerAll before).register c
  rw [registerAll_append]
  refine ((Finds.of_register (h.registerAll before) c).registerAll here after).mono ?_
  intro e listed
  refine ⟨here.knows_registerAll (here.knows_of_listsUnder listed) after, fun kept => ?_⟩
  rw [neverTakesOver_append] at kept
  exact ListsUnder.mono (here.retains_registerAll kept.2.2) listed

theorem index_registerAll (h : r.TopLevel) (found : ∀ c ∈ cs, r.Finds c fun _ => True) :
    (r.registerAll cs).scope.index = r.scope.index := by
  induction cs generalizing r with
  | nil => rfl
  | cons c cs ih =>
    have rest := ih (h.register c) fun d hd => (found d (List.mem_cons_of_mem _ hd)).register h c
    refine rest.trans ?_
    obtain ⟨fault, s, hs, o⟩ := exists_outcome r c
    rw [Registry.register, hs]
    cases o with
    | reference => exact Scope.bind_index ..
    | unknown => rfl
    | refused => exact Scope.mark_index ..
    | repeated => exact (Scope.bind_index ..).trans (Scope.mark_index ..)
    | fresh new material row accepted absent =>
      obtain ⟨e, there, -⟩ := found c List.mem_cons_self new _ _ material row accepted
      rw [absent] at there
      cases there

theorem handle?_registerAll_eq_none_iff {s : Registry} (hr : r.TopLevel) (hs : s.TopLevel)
    (same : ∀ key, s.scope.handle? key = none ↔ r.scope.handle? key = none)
    (found : ∀ c ∈ cs, s.Finds c fun _ => r.Knows c.name)
    (known : ∀ c ∈ cs, r.contains c.id = true → r.Knows c.name) (key : String) :
    (s.registerAll cs).scope.handle? key = none ↔ r.scope.handle? key = none := by
  induction cs generalizing s with
  | nil => exact same key
  | cons c cs ih =>
    refine ih (hs.register c) ?_ (fun d hd => (found d (List.mem_cons_of_mem _ hd)).register hs c)
      fun d hd => known d (List.mem_cons_of_mem _ hd)
    intro key
    rw [hs.handle?_register_eq_none_iff, same]
    refine and_iff_left_of_imp ?_
    rintro new ⟨ok, form⟩
    refine hr.handle?_ne_none_of_hasKey ?_ form new
    rcases hs.sound.register_cases c with ⟨failed, -⟩ | ⟨-, es, brings, -⟩
    · exact absurd ok failed
    · cases brings with
      | reference there =>
        refine known c List.mem_cons_self (hr.contains_iff.mpr fun missing => ?_)
        rw [← same, ← hs.entries?_eq_none_iff, there] at missing
        cases missing
      | item new material row accepted =>
        obtain ⟨-, -, named⟩ := found c List.mem_cons_self new _ _ material row accepted
        exact named

end TopLevel

namespace TopLevel

variable {r : Registry} (h : r.TopLevel) (cs : List Registration)

include h

theorem index_twice :
    ((r.registerAll cs).registerAll cs).scope.index = (r.registerAll cs).scope.index :=
  (h.registerAll cs).index_registerAll fun _ hc => (h.finds_of_mem hc).mono fun _ _ => trivial

theorem handle?_twice_iff :
    (∀ key, ((r.registerAll cs).registerAll cs).scope.handle? key = none ↔
      (r.registerAll cs).scope.handle? key = none) ↔
    ∀ c ∈ cs, (r.registerAll cs).contains c.id = true → (r.registerAll cs).Knows c.name := by
  have first := h.registerAll cs
  have second := first.registerAll cs
  constructor
  · intro same c hc known
    have named := first.knows_of_mem hc known
    rw [Knows, second.contains_iff, second.contains_iff] at named
    rw [Knows, first.contains_iff, first.contains_iff]
    exact ⟨fun new => named.1 ((same _).mpr new), fun new => named.2 ((same _).mpr new)⟩
  · intro known
    refine first.handle?_registerAll_eq_none_iff first (fun _ => Iff.rfl) ?_ known
    exact fun c hc => (h.finds_of_mem hc).mono fun _ found => found.1

theorem lookup_twice_iff (kept : r.NeverTakesOver (cs ++ cs)) :
    (∀ n, Option.Rel Selector.Repeats ((r.registerAll cs).lookup n)
      (((r.registerAll cs).registerAll cs).lookup n)) ↔
    ∀ c ∈ cs, (r.registerAll cs).Covers c := by
  have first := h.registerAll cs
  have second := first.registerAll cs
  rw [neverTakesOver_append] at kept
  constructor
  · intro same c hc s known form hf
    obtain ⟨t, ht, items⟩ := first.lookup_of_mem kept.2 hc known hf
    have repeats := same form
    rw [ht] at repeats
    cases hb : (r.registerAll cs).lookup form with
    | none =>
      rw [hb] at repeats
      cases repeats
    | some before =>
      rw [hb] at repeats
      cases repeats with
      | some repeats => exact ⟨before, rfl, List.Subset.trans items repeats.2⟩
  · intro covered n
    refine Repeats.lookup ?_ first second n
    refine (Repeats.refl _).registerAll first first ?_ covered kept.2
    exact fun c hc => (h.finds_of_mem hc).mono fun _ found => found.2 kept.1

end TopLevel

end Registry

end ItemLexicon
