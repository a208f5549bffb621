import ItemLexicon.Loading.Loader

/-! Changes of a loader that loading carries along: one that respects the registry, the expander and
the diagnostics may as well be made when the work is done. -/

namespace ItemLexicon.Loader

/-- A change of loaders, together with one of the places where faults are found, that makes no
difference to loading. -/
structure IsCarried (change : Loader → Loader) (move : Place → Place) : Prop where
  registry (l : Loader) : (change l).registry = l.registry
  expander (l : Loader) : (change l).expander = l.expander
  setRegistry (l : Loader) (r : Registry) :
    { change l with registry := r } = change { l with registry := r }
  setExpander (l : Loader) (x : Pattern.Expander) :
    { change l with expander := x } = change { l with expander := x }
  report (l : Loader) (p : Place) (fault : Fault) :
    (change l).report (move p) fault = change (l.report p fault)

namespace IsCarried

variable {change : Loader → Loader} {move : Place → Place}

theorem foldl {α : Type} {step step' : Loader → α → Loader}
    (h : ∀ l x, step' (change l) x = change (step l x)) (l : Loader) (xs : List α) :
    xs.foldl step' (change l) = change (xs.foldl step l) := by
  induction xs generalizing l with
  | nil => rfl
  | cons x xs ih => rw [List.foldl_cons, h, ih, List.foldl_cons]

section Steps

variable (h : IsCarried change move)
include h

theorem reportAll (l : Loader) (p : Place) (faults : List Fault) :
    (change l).reportAll (move p) faults = change (l.reportAll p faults) :=
  foldl (fun l fault => h.report l p fault) l faults

theorem expand (l : Loader) (pattern : String) :
    (change l).expand pattern = ((l.expand pattern).1, change (l.expand pattern).2) := by
  rw [Loader.expand, Loader.expand, h.expander]
  exact Prod.ext rfl (h.setExpander ..)

theorem addItem (p : Place) (name : AliasName) (v : Variation) (l : Loader) (item : Variation) :
    addItem (move p) name v (change l) item = change (addItem p name v l item) := by
  simp only [Loader.addItem]
  cases (item.merge v).id with
  | none => exact h.report l p _
  | some id =>
    simp only [h.registry]
    obtain ⟨fault, r⟩ := l.registry.addAlias name (Text.lowercase id) (item.merge v).tags
      (item.merge v).states
    cases fault with
    | none => exact h.setRegistry l r
    | some fault =>
      simp only [h.setRegistry]
      exact h.report { l with registry := r } p fault

theorem addExpanded (p : Place) (items : List Variation) (l : Loader)
    (named : List Char × Variation) :
    addExpanded (move p) items (change l) named = change (addExpanded p items l named) := by
  simp only [Loader.addExpanded, h.reportAll]
  split
  · rfl
  · split
    · exact h.report _ p _
    · exact foldl (h.addItem p _ named.2) _ items

theorem addName (p : Place) (items : List Variation) (l : Loader) (name : List Char) :
    addName (move p) items (change l) name = change (addName p items l name) := by
  simp only [Loader.addName, h.registry, h.reportAll]
  exact foldl (h.addExpanded p items) _ _

theorem addAlias (l : Loader) (p : Place) (pattern data : String) :
    (change l).addAlias (move p) pattern data = change (l.addAlias p pattern data) := by
  simp only [Loader.addAlias, h.reportAll, h.expand]
  split
  · exact h.report l p _
  · exact foldl (h.addName p _) _ _

theorem addVariation (p : Place) (l : Loader) (g : VariationGroup) (key value : String) :
    addVariation (move p) (change l) g key value =
      (change (addVariation p l g key value).1, (addVariation p l g key value).2) := by
  simp only [Loader.addVariation]
  cases Variation.read value.toList with
  | error fault => simp only [h.report]
  | ok v =>
    simp only
    split
    · simp only [h.report, h.expand, h.reportAll]
    · simp only [h.expand, h.reportAll]

theorem variations {source source' : Option String}
    (same : ∀ line, move ⟨source, line⟩ = ⟨source', line⟩) (l : Loader) (g : VariationGroup)
    (ns : List Outline.Node) : variations source' (change l) g ns =
      (change (variations source l g ns).1, (variations source l g ns).2) := by
  induction ns generalizing l g with
  | nil => rfl
  | cons n ns ih =>
    cases n with
    | entry key value line => simp only [Loader.variations, ← same, h.addVariation, ih]
    | heading key line children => simp only [Loader.variations, ← same, h.report, ih]

end Steps

end IsCarried

end ItemLexicon.Loader
