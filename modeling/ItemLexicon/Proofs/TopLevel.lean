import ItemLexicon.Proofs.Binding

namespace ItemLexicon

theorem AliasName.hasKey_of_mem {name : AliasName} {form : String}
    (hf : form ∈ [name.singular, name.plural]) : name.HasKey (Text.lowercase form) := by
  rcases List.mem_cons.mp hf with rfl | hf
  · exact .inl rfl
  · exact .inr (congrArg Text.lowercase (List.mem_singleton.mp hf))

namespace Registry

section Order

variable {r : Registry} {c : Registration}

theorem attempt_of_reference {es : List Entry} (known : r.entries? c.id = some es) :
    (r.attempt c).1 = none := by
  rw [attempt, addAlias, entriesFor, known]

theorem attempt_of_item {m : Nat} {info : MaterialInfo}
    (material : r.platform.material? c.id = some m) (row : r.platform.info? m = some info)
    (accepted : c.isRefused info = false) :
    (r.attempt c).1 = none := by
  obtain ⟨fault, s, hs, o⟩ := exists_outcome r c
  rw [hs]
  cases o with
  | unknown _ missing => simp [material] at missing
  | refused _ material' row' refused => simp_all
  | _ => rfl

/-- The registration succeeds and takes its plural form away from another alias. -/
def TakesOver (r : Registry) (c : Registration) : Prop :=
  (r.attempt c).1 = none ∧ r.scope.BindsApart c.name

instance (r : Registry) (c : Registration) : Decidable (r.TakesOver c) :=
  inferInstanceAs (Decidable (_ ∧ _))

def NeverTakesOver (r : Registry) : List Registration → Prop
  | [] => True
  | c :: cs => ¬r.TakesOver c ∧ (r.register c).NeverTakesOver cs

instance NeverTakesOver.decide (r : Registry) :
    (cs : List Registration) → Decidable (r.NeverTakesOver cs)
  | [] => inferInstanceAs (Decidable True)
  | c :: cs =>
    have := decide (r.register c) cs
    inferInstanceAs (Decidable (_ ∧ _))

theorem neverTakesOver_append {cs ds : List Registration} : r.NeverTakesOver (cs ++ ds) ↔
    r.NeverTakesOver cs ∧ (r.registerAll cs).NeverTakesOver ds := by
  induction cs generalizing r with
  | nil => exact (iff_of_eq (true_and _)).symm
  | cons c cs ih => exact (and_congr_right fun _ => ih).trans and_assoc.symm

end Order

structure TopLevel (r : Registry) : Prop where
  sound : r.Sound
  bound : r.Bound
  alone : r.parents = []

namespace TopLevel

variable {r : Registry}

theorem empty (p : Platform) : (Registry.empty p).TopLevel :=
  ⟨.empty p, (Reachable.empty p).bound, rfl⟩

theorem register (h : r.TopLevel) (c : Registration) : (r.register c).TopLevel :=
  ⟨h.sound.register c, h.bound.register h.sound c, (register_parents r c).trans h.alone⟩

theorem registerAll (h : r.TopLevel) (cs : List Registration) : (r.registerAll cs).TopLevel := by
  induction cs generalizing r with
  | nil => exact h
  | cons c cs ih => exact ih (h.register c)

theorem entries?_eq (h : r.TopLevel) (n : String) :
    r.entries? n = (r.scope.handle? (Text.lowercase n)).map r.scope.listAt := by
  rw [Registry.entries?_eq, h.alone, Scope.entries?_eq, List.findSome?_nil, Option.or_none]

theorem lookup_eq (h : r.TopLevel) (n : String) : r.lookup n =
    (r.scope.handle? (Text.lowercase n)).map fun k =>
      .ofItems ((r.scope.listAt k).map Entry.item) := by
  rw [lookup, h.entries?_eq, Option.map_map]
  rfl

end TopLevel

/-- What is bound stays bound to the same selector, and the selectors only get longer. -/
structure Retains (r r' : Registry) : Prop where
  handles : ∀ key k, r.scope.handle? key = some k → r'.scope.handle? key = some k
  lists : ∀ k, r.scope.listAt k <+: r'.scope.listAt k

namespace Retains

variable {r r' r'' : Registry}

theorem refl (r : Registry) : r.Retains r := ⟨fun _ _ h => h, fun _ => List.prefix_rfl⟩

theorem trans (h : r.Retains r') (h' : r'.Retains r'') : r.Retains r'' where
  handles key k hk := h'.handles key k (h.handles key k hk)
  lists k := (h.lists k).trans (h'.lists k)

end Retains

namespace TopLevel

variable {r : Registry} {c : Registration}

theorem retains_register (h : r.TopLevel) (kept : ¬r.TakesOver c) : r.Retains (r.register c) where
  handles _ _ := h.sound.handle?_register fun lost => kept ⟨lost.1, lost.2.1⟩
  lists := h.bound.listAt_register h.sound c

theorem retains_registerAll (h : r.TopLevel) {cs : List Registration} (kept : r.NeverTakesOver cs) :
    r.Retains (r.registerAll cs) := by
  induction cs generalizing r with
  | nil => exact .refl r
  | cons c cs ih => exact (h.retains_register kept.1).trans (ih (h.register c) kept.2)

theorem handle?_register_eq_none_iff (h : r.TopLevel) {key : String} :
    (r.register c).scope.handle? key = none ↔
      r.scope.handle? key = none ∧ ¬((r.attempt c).1 = none ∧ c.name.HasKey key) := by
  rcases h.sound.register_cases c with ⟨failed, same⟩ | ⟨ok, es, -, same⟩
  · rw [same.handle?]
    exact (and_iff_left fun both => failed both.1).symm
  · rw [same.handle?, Scope.handle?_bind]
    by_cases form : c.name.HasKey key
    · rw [if_pos form]
      exact iff_of_false nofun fun new => new.2 ⟨ok, form⟩
    · rw [if_neg form]
      exact (and_iff_left fun both => form both.2).symm

theorem entries?_eq_none_iff (h : r.TopLevel) {n : String} :
    r.entries? n = none ↔ r.scope.handle? (Text.lowercase n) = none := by
  rw [h.entries?_eq, Option.map_eq_none_iff]

theorem entries?_eq_none_of_register (h : r.TopLevel) {n : String}
    (new : (r.register c).entries? n = none) : r.entries? n = none :=
  h.entries?_eq_none_iff.mpr
    (h.handle?_register_eq_none_iff.mp ((h.register c).entries?_eq_none_iff.mp new)).1

theorem handle?_eq_none_of_registerAll (h : r.TopLevel) {cs : List Registration} {key : String}
    (new : (r.registerAll cs).scope.handle? key = none) : r.scope.handle? key = none := by
  induction cs generalizing r with
  | nil => exact new
  | cons c cs ih => exact (h.handle?_register_eq_none_iff.mp (ih (h.register c) new)).1

theorem equal?_register (h : r.TopLevel) {m : Nat} {info : MaterialInfo} {e : Entry}
    (found : r.equal? (c.item m info) = some e) (d : Registration) :
    (r.register d).equal? (c.item m info) = some e := by
  have defined := c.isDefined m info
  rw [equal?, h.sound.index.equal?_eq_some_iff defined] at found
  rw [equal?, (h.register d).sound.index.equal?_eq_some_iff defined]
  exact ⟨(h.sound.grows_register d).entries e found.1, found.2⟩

theorem exists_handle_of_lookup (h : r.TopLevel) {n : String} {listed : Selector}
    (known : r.lookup n = some listed) : ∃ k, r.scope.handle? (Text.lowercase n) = some k ∧
      listed.types = (r.scope.listAt k).map Entry.item := by
  rw [h.lookup_eq, Option.map_eq_some_iff] at known
  obtain ⟨k, hk, rfl⟩ := known
  exact ⟨k, hk, rfl⟩

end TopLevel

def Knows (r : Registry) (name : AliasName) : Prop :=
  r.contains name.singular = true ∧ r.contains name.plural = true

namespace TopLevel

variable {r : Registry} {c : Registration} {cs : List Registration} {name : AliasName}

theorem contains_iff (h : r.TopLevel) {n : String} :
    r.contains n = true ↔ r.scope.handle? (Text.lowercase n) ≠ none := by
  rw [contains, Option.isSome_iff_ne_none, ne_eq, h.entries?_eq_none_iff]

theorem handle?_ne_none_of_hasKey (h : r.TopLevel) (known : r.Knows name) {key : String}
    (form : name.HasKey key) : r.scope.handle? key ≠ none := by
  rcases form with rfl | rfl
  · exact h.contains_iff.mp known.1
  · exact h.contains_iff.mp known.2

theorem contains_registerAll (h : r.TopLevel) {n : String} (known : r.contains n = true)
    (cs : List Registration) : (r.registerAll cs).contains n = true := by
  rw [h.contains_iff] at known
  rw [(h.registerAll cs).contains_iff]
  exact fun new => known (h.handle?_eq_none_of_registerAll new)

theorem knows_registerAll (h : r.TopLevel) (known : r.Knows name) (cs : List Registration) :
    (r.registerAll cs).Knows name :=
  ⟨h.contains_registerAll known.1 cs, h.contains_registerAll known.2 cs⟩

theorem knows_register (h : r.TopLevel) (ok : (r.attempt c).1 = none) :
    (r.register c).Knows c.name := by
  have bound : ∀ key, c.name.HasKey key → (r.register c).scope.handle? key ≠ none :=
    fun key form new => (h.handle?_register_eq_none_iff.mp new).2 ⟨ok, form⟩
  have after := h.register c
  exact ⟨after.contains_iff.mpr (bound _ (.inl rfl)), after.contains_iff.mpr (bound _ (.inr rfl))⟩

theorem knows_of_mem (h : r.TopLevel) (hc : c ∈ cs) (known : r.contains c.id = true) :
    (r.registerAll cs).Knows c.name := by
  obtain ⟨before, after, rfl⟩ := List.append_of_mem hc
  have mid := h.registerAll before
  obtain ⟨es, reference⟩ := Option.isSome_iff_exists.mp (h.contains_registerAll known before)
  rw [registerAll_append]
  have named := mid.knows_register (attempt_of_reference reference)
  exact (mid.register c).knows_registerAll named after

theorem exists_handle_register_of_reference (h : r.TopLevel) {es : List Entry}
    (known : r.entries? c.id = some es) {key : String} (form : c.name.HasKey key) :
    ∃ k, (r.register c).scope.handle? key = some k ∧ es ⊆ (r.register c).scope.listAt k := by
  have scope : (r.register c).scope = r.scope.bind c.name es := by
    rw [Registry.register, attempt, addAlias, entriesFor, known]
  refine ⟨r.scope.target c.name, ?_, ?_⟩
  · rw [scope, Scope.handle?_bind, if_pos form]
  · rw [scope, Scope.listAt_bind (h.bound _ List.mem_cons_self), if_pos rfl]
    exact List.subset_append_right ..

theorem lookup_of_mem (h : r.TopLevel) (kept : r.NeverTakesOver cs) (hc : c ∈ cs) {s : Selector}
    (known : r.lookup c.id = some s) {form : String}
    (hf : form ∈ [c.name.singular, c.name.plural]) :
    ∃ t, (r.registerAll cs).lookup form = some t ∧ s.types ⊆ t.types := by
  obtain ⟨before, after, rfl⟩ := List.append_of_mem hc
  rw [neverTakesOver_append] at kept
  have mid := h.registerAll before
  obtain ⟨k, hk, types⟩ := h.exists_handle_of_lookup known
  -- the id still refers to that alias when the turn comes
  have earlier := h.retains_registerAll kept.1
  have reference := entries?_of_handle? (earlier.handles _ k hk)
  obtain ⟨j, hj, listed⟩ :=
    mid.exists_handle_register_of_reference reference (AliasName.hasKey_of_mem hf)
  have later := (mid.register c).retains_registerAll kept.2.2
  rw [registerAll_append]
  refine ⟨_, lookup_of_entries? (entries?_of_handle? (later.handles _ j hj)), ?_⟩
  rw [types]
  apply List.map_subset
  intro e he
  exact (later.lists j).subset (listed ((earlier.lists k).subset he))

end TopLevel

end Registry

end ItemLexicon
