import ItemLexicon.Loading.Files
import ItemLexicon.Proofs.CarriedChanges

namespace ItemLexicon

def Source.renamed (f : String → String) (s : Source) : Source := { s with name := f s.name }

def Place.renamed (f : String → String) (p : Place) : Place := { p with source := p.source.map f }

theorem Place.renamed_mk (f : String → String) (source : Option String) (line : Nat) :
    renamed f ⟨source, line⟩ = ⟨source.map f, line⟩ := rfl

def Diagnostic.renamed (f : String → String) (d : Diagnostic) : Diagnostic :=
  { d with source := d.source.map f }

@[simp] theorem Diagnostic.renamed_id (d : Diagnostic) : d.renamed id = d := by
  simp [renamed]

namespace Loader

def relayed (base : List Diagnostic) (f : String → String) (l : Loader) : Loader :=
  { l with diagnostics := base ++ l.diagnostics.map (·.renamed f) }

variable (base : List Diagnostic) (f : String → String)

theorem isCarried_relayed : IsCarried (relayed base f) (Place.renamed f) where
  registry _ := rfl
  expander _ := rfl
  setRegistry _ _ := rfl
  setExpander _ _ := rfl
  report l p fault := by
    simp only [report, relayed, Place.renamed, Diagnostic.renamed, List.map_append, List.map_cons,
      List.map_nil, List.append_assoc]
    rfl

theorem nodes_relayed (source : Option String) (l : Loader) (ns : List Outline.Node) :
    nodes (source.map f) (l.relayed base f) ns = (nodes source l ns).relayed base f := by
  have carried := isCarried_relayed base f
  induction ns generalizing l with
  | nil => rfl
  | cons n ns ih =>
    cases n with
    | heading key line children =>
      simp only [nodes, ← Place.renamed_mk, carried.report, carried.variations (Place.renamed_mk f _)]
      split
      · obtain ⟨l', g⟩ := variations source l .empty children
        exact ih { l' with registry := l'.registry.addGroup key g }
      · exact ih _
    | entry key value line =>
      simp only [nodes, ← Place.renamed_mk, carried.addAlias]
      rw [show (l.relayed base f).conditions = l.conditions from rfl]
      split
      · exact ih l
      · rfl
      · exact ih _

theorem outline_relayed (source : Option String) (l : Loader) (ns : List Outline.Node) :
    outline (source.map f) (l.relayed base f) ns = (outline source l ns).relayed base f := by
  induction ns generalizing l with
  | nil => rfl
  | cons n ns ih =>
    cases n with
    | heading key line children => simp only [outline, nodes_relayed, ih]
    | entry key value line =>
      simp only [outline, ← Place.renamed_mk, (isCarried_relayed base f).report, ih]

theorem text_relayed (l : Loader) (source : Option String) (text : String) :
    (l.relayed base f).text (source.map f) text = (l.text source text).relayed base f := by
  simp only [Loader.text]
  rw [IsCarried.foldl fun l fault =>
    (isCarried_relayed base f).report l ⟨source, fault.1⟩ fault.2]
  exact outline_relayed base f source _ _

theorem sources_relayed (l : Loader) (ss : List Source) :
    (l.relayed base f).sources (ss.map (·.renamed f)) =
      ((l.sources ss).1, (l.sources ss).2.relayed base f) := by
  induction ss generalizing l with
  | nil => rfl
  | cons s ss ih =>
    simp only [List.map_cons, sources, Source.renamed]
    cases s.text with
    | error failure => rfl
    | ok text =>
      simp only [← Option.map_some, text_relayed]
      exact ih _

theorem relayed_cleared (l : Loader) (f : String → String) :
    relayed l.diagnostics f { l with diagnostics := [] } = l := by
  simp [relayed]

theorem relayed_id (base : List Diagnostic) (l : Loader) :
    l.relayed base id = { l with diagnostics := base ++ l.diagnostics } := by
  simp [relayed]

theorem sources_renamed (l : Loader) (f : String → String) (ss : List Source) :
    (l.sources (ss.map (·.renamed f))).1 = (l.sources ss).1 ∧
      (l.sources (ss.map (·.renamed f))).2.registry = (l.sources ss).2.registry ∧
      ∃ new, (l.sources ss).2.diagnostics = l.diagnostics ++ new ∧
        (l.sources (ss.map (·.renamed f))).2.diagnostics =
          l.diagnostics ++ new.map (·.renamed f) := by
  have named := sources_relayed l.diagnostics f { l with diagnostics := [] } ss
  have plain := sources_relayed l.diagnostics id { l with diagnostics := [] } ss
  rw [relayed_cleared] at named plain
  rw [show ss.map (·.renamed id) = ss from List.map_id ss] at plain
  rw [named, plain]
  exact ⟨rfl, rfl, _, by rw [relayed_id], rfl⟩

theorem sources_eq_none (l : Loader) {ss : List Source}
    (h : ∀ s ∈ ss, ∃ text, s.text = .ok text) : (l.sources ss).1 = none := by
  induction ss generalizing l with
  | nil => rfl
  | cons s ss ih =>
    obtain ⟨⟨text, hs⟩, rest⟩ := List.forall_mem_cons.mp h
    rw [sources, hs]
    exact ih _ rest

end Loader

end ItemLexicon
