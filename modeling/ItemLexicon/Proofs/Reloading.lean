import ItemLexicon.Proofs.LoadedRegistry
import ItemLexicon.Proofs.Reregistration
import Mathlib.Data.List.Basic

/-! Loading a text a second time.  The first load leaves its groups behind, so the second one
expands the names in the same way only if no name referred to a group too early.  Then both ask for
the same registrations. -/

namespace ItemLexicon

def Groups.over (find rest : Groups) : Groups := fun name => (find name).or (rest name)

namespace Expansion

variable {find rest : Groups}

theorem slots_over (c : Cutter) (s : List Char)
    (unknown : ∀ name, .unknownVariation name ∈ (slots find c s).2 → rest name = none) :
    slots (find.over rest) c s = slots find c s := by
  fun_induction slots find c s with
  | case1 c closed => rw [slots, closed]
  | case2 c start inner opened => rw [slots, opened]
  | case3 c s before ih =>
    rw [slots]
    exact ih unknown
  | case4 c s closed ss faults eq ih =>
    rw [eq] at ih
    rw [slots, closed]
    simp only [ih fun name h => unknown name (List.mem_cons_of_mem _ h)]
  | case5 c s start inner opened name ss faults eq g found ih =>
    have known : find.over rest name = some g := by rw [Groups.over, found, Option.some_or]
    rw [eq] at ih
    rw [slots, opened]
    simp only [ih unknown]
    rw [known]
  | case6 c s start inner opened name ss faults eq missing ih =>
    have still : find.over rest name = none := by
      rw [Groups.over, missing, Option.none_or, unknown name List.mem_cons_self]
    rw [eq] at ih
    rw [slots, opened]
    simp only [ih fun name h => unknown name (List.mem_cons_of_mem _ h)]
    rw [still]
  | case7 c d s notOpen notClose closed ih =>
    rw [slots, closed]
    · exact ih unknown
    · exact notOpen
    · exact notClose
  | case8 c d s notOpen notClose start inner opened ih =>
    rw [slots, opened]
    · exact ih unknown
    · exact notOpen
    · exact notClose

theorem ofName_over (name : List Char)
    (unknown : ∀ group, .unknownVariation group ∈ (ofName find name).2 → rest group = none) :
    ofName (find.over rest) name = ofName find name := by
  rw [ofName, ofName, slots_over _ _ unknown]

end Expansion

namespace Request

variable {find rest : Groups}

theorem registrations_over (q : Request)
    (unknown : ∀ group, .unknownVariation group ∈ q.faults find → rest group = none) :
    q.registrations (find.over rest) = q.registrations find := by
  cases q with
  | group name g => rfl
  | define pattern data =>
    rw [registrations, registrations]
    apply List.flatMap_congr
    intro name hname
    rw [Expansion.ofName_over name]
    exact fun group h => unknown group (List.mem_flatMap.mpr ⟨name, hname, h⟩)

theorem update_over (q : Request) : q.update (find.over rest) = (q.update find).over rest := by
  cases q with
  | define pattern data => rfl
  | group name g =>
    funext other
    by_cases h : other = name
    · simp [update, Groups.over, h]
    · simp [update, Groups.over, h]

theorem allRegistrations_over (qs : List Request)
    (unknown : ∀ group, .unknownVariation group ∈ allFaults find qs → rest group = none) :
    allRegistrations (find.over rest) qs = allRegistrations find qs := by
  induction qs generalizing find with
  | nil => rfl
  | cons q qs ih =>
    rw [allRegistrations, allRegistrations, update_over,
      registrations_over q fun group h => unknown group (List.mem_append_left _ h),
      ih fun group h => unknown group (List.mem_append_right _ h)]

end Request

namespace Loader

def registrations (cs : Conditions) (text : String) : List Registration :=
  Request.allRegistrations (fun _ => none) (Request.ofText cs text)

theorem exists_registry_text (p : Platform) (cs : Conditions) (source : Option String)
    (text : String) : ∃ gs, ((start (.empty p) cs).text source text).registry =
      ((Registry.empty p).registerAll (registrations cs text)).withGroups gs := by
  rw [(Serves.text (start (.empty p) cs) source text).registry]
  exact Registry.exists_withGroups (.empty p) _

theorem exists_registry_text_again {p : Platform} {cs : Conditions} {source : Option String}
    {text : String} {r : Registry}
    (settled : ∀ d ∈ ((start (.empty p) cs).text source text).diagnostics, ∀ group,
      d.fault = .unknownVariation group → r.group? group = none) :
    ∃ gs, ((start r cs).text source text).registry =
      (r.registerAll (registrations cs text)).withGroups gs := by
  have same : Request.allRegistrations r.group? (Request.ofText cs text) =
      registrations cs text := by
    refine @Request.allRegistrations_over (fun _ => none) r.group? _ ?_
    intro group h
    obtain ⟨d, hd, fault⟩ := (Serves.text (start (.empty p) cs) source text).reported _ h
    exact settled d hd group fault
  rw [(Serves.text (start r cs) source text).registry, ← same]
  exact Registry.exists_withGroups r _

end Loader

namespace Registry

theorem TopLevel.twice {r r' r'' : Registry} {cs : List Registration} (h : r.TopLevel)
    (first : ∃ gs, r' = (r.registerAll cs).withGroups gs)
    (second : ∃ gs, r'' = (r'.registerAll cs).withGroups gs) :
    r''.scope.index = r'.scope.index ∧
    ((∀ key, key ∈ Dictionary.keys r''.scope.names ↔ key ∈ Dictionary.keys r'.scope.names) ↔
      ∀ c ∈ cs, r'.contains c.id = true → r'.Knows c.name) ∧
    (r.NeverTakesOver (cs ++ cs) →
      ((∀ name, Option.Rel Selector.Repeats (r'.lookup name) (r''.lookup name)) ↔
        ∀ c ∈ cs, r'.Covers c)) := by
  obtain ⟨gs, rfl⟩ := first
  obtain ⟨gs', rfl⟩ := second
  rw [registerAll_withGroups]
  refine ⟨h.index_twice cs, Iff.trans ?_ (h.handle?_twice_iff cs), h.lookup_twice_iff cs⟩
  apply forall_congr'
  intro key
  rw [Scope.mem_names_iff, Scope.mem_names_iff, not_iff_not]
  rfl

end Registry

/-- A second load of a text leaves the index as it is.  It adds no names just if every alias defined
by the name of another one is known after the first load, and lists the same items just if each such
alias lists all that the other one does. -/
theorem Loader.text_twice {p : Platform} {cs : Conditions} {source : Option String} {text : String}
    {first second : Loader} (once : first = (start (.empty p) cs).text source text)
    (again : second = (start first.registry cs).text source text)
    (settled : ∀ d ∈ first.diagnostics, ∀ group, d.fault = .unknownVariation group →
      first.registry.group? group = none) :
    second.registry.scope.index = first.registry.scope.index ∧
    ((∀ key, key ∈ Dictionary.keys second.registry.scope.names ↔
        key ∈ Dictionary.keys first.registry.scope.names) ↔
      ∀ c ∈ registrations cs text,
        first.registry.contains c.id = true → first.registry.Knows c.name) ∧
    ((Registry.empty p).NeverTakesOver (registrations cs text ++ registrations cs text) →
      ((∀ name, Option.Rel Selector.Repeats (first.registry.lookup name)
          (second.registry.lookup name)) ↔
        ∀ c ∈ registrations cs text, first.registry.Covers c)) := by
  subst once again
  exact Registry.TopLevel.twice (.empty p) (exists_registry_text p cs source text)
    (exists_registry_text_again settled)

theorem Loader.text_twice_of_reference :
    let p : Platform := ⟨⟨[1, 20, 4]⟩, false, [⟨"minecraft:stone", true, 0⟩], []⟩
    let text := "rocks:\n  rock¦s = stone\n  rocks = rock\n"
    let first := (start (.empty p) []).text none text
    let second := (start first.registry []).text none text
    first.diagnostics = [] ∧ second.registry.scope.index = first.registry.scope.index ∧
      (∀ key, key ∈ Dictionary.keys second.registry.scope.names ↔
        key ∈ Dictionary.keys first.registry.scope.names) ∧
      (Registry.empty p).NeverTakesOver (registrations [] text ++ registrations [] text) ∧
      ∀ name, Option.Rel Selector.Repeats (first.registry.lookup name)
        (second.registry.lookup name) := by
  intro p text first second
  have clean : first.diagnostics = [] := by decide +kernel
  have settled : ∀ d ∈ first.diagnostics, ∀ group, d.fault = .unknownVariation group →
      first.registry.group? group = none := by
    rw [clean]
    exact fun d hd => absurd hd List.not_mem_nil
  have kept : (Registry.empty p).NeverTakesOver
      (registrations [] text ++ registrations [] text) := by decide +kernel
  have bound : ∀ c ∈ registrations [] text, first.registry.contains c.id = true →
      ∀ n ∈ [c.id, c.name.singular, c.name.plural],
        first.registry.scope.handle? (Text.lowercase n) = some 0 := by decide +kernel
  obtain ⟨index, names, lists⟩ := text_twice (rfl : first = _) (rfl : second = _) settled
  generalize registrations [] text = asked at *
  clear_value first second
  have lookup : ∀ c ∈ asked, first.registry.contains c.id = true →
      ∀ n ∈ [c.id, c.name.singular, c.name.plural], first.registry.lookup n =
        some (.ofItems ((first.registry.scope.listAt 0).map Entry.item)) :=
    fun c hc known n hn =>
      Registry.lookup_of_entries? (Registry.entries?_of_handle? (bound c hc known n hn))
  refine ⟨clean, index, names.mpr ?_, kept, (lists kept).mpr ?_⟩
  · intro c hc known
    exact ⟨Registry.contains_of_lookup (lookup c hc known _ (by simp)),
      Registry.contains_of_lookup (lookup c hc known _ (by simp))⟩
  · intro c hc s hs form hf
    have known := Registry.contains_of_lookup hs
    rw [lookup c hc known _ List.mem_cons_self] at hs
    exact ⟨s, (lookup c hc known _ (List.mem_cons_of_mem _ hf)).trans hs, List.Subset.refl _⟩

theorem Loader.second_load_adds :
    let p : Platform := ⟨⟨[1, 20, 4]⟩, false, [⟨"minecraft:stone", true, 0⟩], []⟩
    let text := "rocks:\n  boulder = rock\n  rock = stone\n"
    let load (r : Registry) := ((start r []).text none text).registry
    let materials (s : Option Selector) : Option (List (Option Nat)) :=
      s.map fun s => s.types.map Item.material
    let first := load (.empty p)
    materials (first.lookup "rock") = some [some 0] ∧
      materials ((load first).lookup "rock") = some [some 0, some 0] ∧
      materials (first.lookup "boulder") = none ∧
      materials ((load first).lookup "boulder") = some [some 0] := by
  decide +kernel

end ItemLexicon
