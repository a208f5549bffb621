import ItemLexicon.Loading.Loader
import ItemLexicon.Proofs.PatternRewriting
import ItemLexicon.Proofs.Binding
import Mathlib.Logic.Function.Basic

namespace ItemLexicon

abbrev Groups := String → Option VariationGroup

inductive Request
  | group (name : String) (g : VariationGroup)
  | define (pattern data : String)

namespace Request

def ofItem (name : AliasName) (v item : Variation) : List Registration :=
  match (item.merge v).id with
  | none => []
  | some id => [⟨name, Text.lowercase id, (item.merge v).tags, (item.merge v).states⟩]

def ofExpanded (items : List Variation) (named : List Char × Variation) : List Registration :=
  match (Loader.aliasName named.1).1 with
  | none => []
  | some name => items.flatMap (ofItem name named.2)

def names (pattern : String) : List (List Char) :=
  if (Text.trim pattern.toList).isEmpty then [] else (Pattern.expand pattern.toList).names

def items (data : String) : List Variation :=
  (Loader.definitions (Segment.nonEmpty ',' data.toList)).1

def registrations (find : Groups) : Request → List Registration
  | .group .. => []
  | .define pattern data => (names pattern).flatMap fun name =>
    (Expansion.ofName find name).1.flatMap (ofExpanded (items data))

def faults (find : Groups) : Request → List Fault
  | .group .. => []
  | .define pattern _ => (names pattern).flatMap fun name => (Expansion.ofName find name).2

def update (find : Groups) : Request → Groups
  | .group name g => Function.update find name (some g)
  | .define .. => find

def allRegistrations (find : Groups) : List Request → List Registration
  | [] => []
  | q :: qs => q.registrations find ++ allRegistrations (q.update find) qs

def allFaults (find : Groups) : List Request → List Fault
  | [] => []
  | q :: qs => q.faults find ++ allFaults (q.update find) qs

theorem allFaults_append (find : Groups) (qs qs' : List Request) :
    allFaults find (qs ++ qs') = allFaults find qs ++ allFaults (qs.foldl update find) qs' := by
  induction qs generalizing find with
  | nil => rfl
  | cons q qs ih =>
    rw [List.cons_append, allFaults, allFaults, ih, List.append_assoc]
    rfl

def addTo (g : VariationGroup) (key value : String) : VariationGroup :=
  match Variation.read value.toList with
  | .error _ => g
  | .ok v => (Pattern.expand key.toList).names.foldl (fun g k => g.push (Loader.entryKey k) v) g

def groupOf (g : VariationGroup) : List Outline.Node → VariationGroup
  | [] => g
  | .entry key value _ :: ns => groupOf (addTo g key value) ns
  | .heading .. :: ns => groupOf g ns

def ofNodes (cs : Conditions) : List Outline.Node → List Request
  | [] => []
  | .heading key _ children :: ns =>
    if Loader.isBraced key then .group key (groupOf .empty children) :: ofNodes cs ns
    else ofNodes cs ns
  | .entry key value _ :: ns =>
    match cs.check key value with
    | some true => ofNodes cs ns
    | some false => []
    | none => .define key value :: ofNodes cs ns

def ofOutline (cs : Conditions) : List Outline.Node → List Request
  | [] => []
  | .heading _ _ children :: ns => ofNodes cs children ++ ofOutline cs ns
  | .entry .. :: ns => ofOutline cs ns

def ofText (cs : Conditions) (text : String) : List Request := ofOutline cs (Outline.read text).1

end Request

namespace Registry

def withGroups (r : Registry) (gs : Dictionary VariationGroup) : Registry :=
  { r with scope := { r.scope with groups := gs } }

section Groups

variable (r : Registry) (gs : Dictionary VariationGroup) (c : Registration)

theorem mark_withGroups (m : Nat) :
    Registry.mk r.platform ((r.withGroups gs).scope.mark m) (r.withGroups gs).parents =
      withGroups ⟨r.platform, r.scope.mark m, r.parents⟩ gs := by
  rw [withGroups, withGroups, Scope.mark, Scope.mark]
  split <;> rfl

theorem entryFor_withGroups (name : AliasName) (id : String) (item : Item)
    (relatedEntity : Option String) : (r.withGroups gs).entryFor name id item relatedEntity =
      ((r.entryFor name id item relatedEntity).1,
        (r.entryFor name id item relatedEntity).2.withGroups gs) := by
  rw [entryFor, entryFor, show (r.withGroups gs).equal? item = r.equal? item from rfl]
  cases r.equal? item <;> rfl

theorem entriesFor_withGroups (name : AliasName) (id : String) (tags : Tags) (states : States) :
    (r.withGroups gs).entriesFor name id tags states =
      ((r.entriesFor name id tags states).1,
        (r.entriesFor name id tags states).2.withGroups gs) := by
  rw [entriesFor, entriesFor, show (r.withGroups gs).entries? id = r.entries? id from rfl,
    show (r.withGroups gs).platform = r.platform from rfl]
  cases r.entries? id with
  | some es => rfl
  | none =>
    cases r.platform.material? id with
    | none => rfl
    | some m =>
      cases row : r.platform.info? m with
      | none => simp only [row]
      | some info =>
        simp only [row, mark_withGroups, entryFor_withGroups]
        split <;> rfl

theorem register_withGroups : (r.withGroups gs).register c = (r.register c).withGroups gs := by
  rw [register, register, attempt, attempt, addAlias, addAlias, entriesFor_withGroups]
  cases r.entriesFor c.name c.id c.tags c.states with
  | mk result after =>
    cases result with
    | error fault => rfl
    | ok es =>
      simp only [withGroups, Scope.bind_eq_of_forms]
      rfl

theorem registerAll_withGroups (cs : List Registration) :
    (r.withGroups gs).registerAll cs = (r.registerAll cs).withGroups gs := by
  induction cs generalizing r with
  | nil => rfl
  | cons c cs ih =>
    rw [registerAll, List.foldl_cons, register_withGroups]
    exact ih (r.register c)

@[simp] theorem register_groups : (r.register c).scope.groups = r.scope.groups := by
  have same := register_withGroups r r.scope.groups c
  exact congrArg (fun r => r.scope.groups) same

theorem group?_register : (r.register c).group? = r.group? := by
  funext name
  rw [group?, group?, scopes, scopes, List.findSome?_cons, List.findSome?_cons, register_groups,
    register_parents]

theorem group?_registerAll (cs : List Registration) : (r.registerAll cs).group? = r.group? := by
  induction cs generalizing r with
  | nil => rfl
  | cons c cs ih => exact (ih (r.register c)).trans (group?_register r c)

theorem group?_addGroup (name : String) (g : VariationGroup) :
    (r.addGroup name g).group? = Function.update r.group? name (some g) := by
  funext other
  rw [group?, scopes, List.findSome?_cons, addGroup]
  by_cases h : other = name
  · rw [h, Dictionary.get?_insert_self, Function.update_self]
  · rw [Dictionary.get?_insert_of_ne h, Function.update_of_ne h]
    rfl

end Groups

def serve (r : Registry) : Request → Registry
  | .group name g => r.addGroup name g
  | .define pattern data => r.registerAll ((Request.define pattern data).registrations r.group?)

theorem group?_serve (r : Registry) (q : Request) : (r.serve q).group? = q.update r.group? := by
  cases q with
  | group name g => exact group?_addGroup r name g
  | define pattern data => exact group?_registerAll r _

theorem group?_foldl_serve (r : Registry) (qs : List Request) :
    (qs.foldl serve r).group? = qs.foldl Request.update r.group? := by
  induction qs generalizing r with
  | nil => rfl
  | cons q qs ih => rw [List.foldl_cons, ih, group?_serve, List.foldl_cons]

theorem exists_withGroups (r : Registry) (qs : List Request) : ∃ gs, qs.foldl serve r =
    (r.registerAll (Request.allRegistrations r.group? qs)).withGroups gs := by
  induction qs generalizing r with
  | nil => exact ⟨r.scope.groups, rfl⟩
  | cons q qs ih =>
    obtain ⟨gs, h⟩ := ih (r.serve q)
    refine ⟨gs, ?_⟩
    rw [List.foldl_cons, h, group?_serve, Request.allRegistrations]
    cases q with
    | group name g =>
      rw [serve, show r.addGroup name g = r.withGroups (Dictionary.insert name g r.scope.groups)
        from rfl, registerAll_withGroups]
      rfl
    | define pattern data =>
      rw [serve, registerAll_append]

end Registry

namespace Loader

/-- The second loader has come from the first by registrations and reports, among them those of the
faults. -/
structure Registers (l : Loader) (cs : List Registration) (fs : List Fault) (l' : Loader) :
    Prop where
  registry : l'.registry = l.registry.registerAll cs
  conditions : l'.conditions = l.conditions
  diagnostics : l.diagnostics <+: l'.diagnostics
  reported : ∀ f ∈ fs, ∃ d ∈ l'.diagnostics, d.fault = f

namespace Registers

variable {l l' l'' : Loader} {cs ds : List Registration} {fs gs : List Fault}

theorem refl (l : Loader) : l.Registers [] [] l := ⟨rfl, rfl, List.prefix_rfl, nofun⟩

theorem trans (h : l.Registers cs fs l') (h' : l'.Registers ds gs l'') :
    l.Registers (cs ++ ds) (fs ++ gs) l'' where
  registry := by rw [h'.registry, h.registry, Registry.registerAll_append]
  conditions := h'.conditions.trans h.conditions
  diagnostics := h.diagnostics.trans h'.diagnostics
  reported := by
    intro f hf
    rcases List.mem_append.mp hf with hf | hf
    · obtain ⟨d, hd, same⟩ := h.reported f hf
      exact ⟨d, h'.diagnostics.subset hd, same⟩
    · exact h'.reported f hf

theorem weaken (h : l.Registers cs fs l') (sub : gs ⊆ fs) : l.Registers cs gs l' :=
  { h with reported := fun f hf => h.reported f (sub hf) }

theorem group? (h : l.Registers cs fs l') : l'.registry.group? = l.registry.group? := by
  rw [h.registry, Registry.group?_registerAll]

theorem report (l : Loader) (p : Place) (fault : Fault) :
    l.Registers [] [fault] (l.report p fault) := by
  refine ⟨rfl, rfl, List.prefix_append .., ?_⟩
  intro f hf
  rw [List.mem_singleton.mp hf]
  exact ⟨_, List.mem_append_right _ List.mem_cons_self, rfl⟩

theorem reportAll (l : Loader) (p : Place) (faults : List Fault) :
    l.Registers [] faults (l.reportAll p faults) := by
  induction faults generalizing l with
  | nil => exact .refl l
  | cons fault faults ih => exact (report l p fault).trans (ih (l.report p fault))

theorem expand (l : Loader) (pattern : String) : l.Registers [] [] (l.expand pattern).2 :=
  ⟨rfl, rfl, List.prefix_rfl, nofun⟩

theorem foldl {α : Type} {step : Loader → α → Loader} {f : α → List Registration}
    {g : α → List Fault} (l : Loader)
    (h : ∀ (l' : Loader) x, l'.registry.group? = l.registry.group? →
      l'.Registers (f x) (g x) (step l' x))
    (xs : List α) : l.Registers (xs.flatMap f) (xs.flatMap g) (xs.foldl step l) := by
  induction xs generalizing l with
  | nil => exact .refl l
  | cons x xs ih =>
    have first := h l x rfl
    exact first.trans (ih (step l x) fun l' x same => h l' x (same.trans first.group?))

theorem addItem (l : Loader) (p : Place) (name : AliasName) (v item : Variation) :
    l.Registers (Request.ofItem name v item) [] (addItem p name v l item) := by
  rw [Loader.addItem, Request.ofItem]
  cases (item.merge v).id with
  | none => exact (report l p _).weaken (List.nil_subset _)
  | some id =>
    cases hc : l.registry.addAlias name (Text.lowercase id) (item.merge v).tags
      (item.merge v).states with
    | mk fault r =>
      have registered : l.Registers
          [⟨name, Text.lowercase id, (item.merge v).tags, (item.merge v).states⟩] []
          { l with registry := r } := ⟨congrArg Prod.snd hc.symm, rfl, List.prefix_rfl, nofun⟩
      simp only [hc]
      cases fault with
      | none => exact registered
      | some fault => exact (registered.trans (report _ p fault)).weaken (List.nil_subset _)

theorem addExpanded (l : Loader) (p : Place) (items : List Variation)
    (named : List Char × Variation) :
    l.Registers (Request.ofExpanded items named) [] (addExpanded p items l named) := by
  rw [Loader.addExpanded, Request.ofExpanded]
  cases aliasName named.1 with
  | mk name faults =>
    have reported := reportAll l p faults
    cases name with
    | none => exact reported.weaken (List.nil_subset _)
    | some name =>
      simp only
      split
      · rename_i none'
        rw [List.isEmpty_iff.mp none']
        exact (reported.trans (report _ p _)).weaken (List.nil_subset _)
      · have added :=
          foldl (l.reportAll p faults) (fun l item _ => addItem l p name named.2 item) items
        exact (reported.trans added).weaken (List.nil_subset _)

theorem addName (l : Loader) (p : Place) (items : List Variation) (name : List Char) :
    l.Registers ((Expansion.ofName l.registry.group? name).1.flatMap (Request.ofExpanded items))
      (Expansion.ofName l.registry.group? name).2 (addName p items l name) := by
  rw [Loader.addName]
  cases Expansion.ofName l.registry.group? name with
  | mk named faults =>
    have reported := reportAll l p faults
    have added :=
      foldl (l.reportAll p faults) (fun l named _ => addExpanded l p items named) named
    exact (reported.trans added).weaken (List.subset_append_left ..)

theorem addAlias (l : Loader) (p : Place) (pattern data : String) :
    l.Registers ((Request.define pattern data).registrations l.registry.group?)
      ((Request.define pattern data).faults l.registry.group?) (l.addAlias p pattern data) := by
  rw [Loader.addAlias, Request.registrations, Request.faults, Request.names]
  split
  · exact (report l p .emptyName).weaken (List.nil_subset _)
  · rw [Request.items]
    cases definitions (Segment.nonEmpty ',' data.toList) with
    | mk items faults =>
      have names : Pattern.expand pattern.toList = ((l.reportAll p faults).expand pattern).1 :=
        (Pattern.Expander.expand_fst ..).symm
      rw [names]
      have expanded := (reportAll l p faults).trans (expand _ pattern)
      cases hx : (l.reportAll p faults).expand pattern with
      | mk expansion l' =>
        rw [hx] at expanded
        have reported := expanded.trans (reportAll l' p expansion.faults)
        have added := foldl (l'.reportAll p expansion.faults)
          (fun l name same => (same.trans reported.group?) ▸ addName l p items name) expansion.names
        simp only [hx]
        exact (reported.trans added).weaken (List.subset_append_right ..)

end Registers

/-- The second loader has come from the first by serving requests. -/
structure Serves (l : Loader) (qs : List Request) (l' : Loader) : Prop where
  registry : l'.registry = qs.foldl Registry.serve l.registry
  conditions : l'.conditions = l.conditions
  diagnostics : l.diagnostics <+: l'.diagnostics
  reported : ∀ f ∈ Request.allFaults l.registry.group? qs, ∃ d ∈ l'.diagnostics, d.fault = f

namespace Serves

variable {l l' l'' : Loader} {qs qs' : List Request} {fs : List Fault}

theorem refl (l : Loader) : l.Serves [] l := ⟨rfl, rfl, List.prefix_rfl, nofun⟩

theorem trans (h : l.Serves qs l') (h' : l'.Serves qs' l'') : l.Serves (qs ++ qs') l'' where
  registry := by rw [h'.registry, h.registry, List.foldl_append]
  conditions := h'.conditions.trans h.conditions
  diagnostics := h.diagnostics.trans h'.diagnostics
  reported := by
    intro f hf
    rw [Request.allFaults_append, ← Registry.group?_foldl_serve, ← h.registry] at hf
    rcases List.mem_append.mp hf with hf | hf
    · obtain ⟨d, hd, same⟩ := h.reported f hf
      exact ⟨d, h'.diagnostics.subset hd, same⟩
    · exact h'.reported f hf

theorem of_registers (h : l.Registers [] fs l') : l.Serves [] l' :=
  ⟨h.registry, h.conditions, h.diagnostics, nofun⟩

theorem addAlias (l : Loader) (p : Place) (pattern data : String) :
    l.Serves [.define pattern data] (l.addAlias p pattern data) := by
  have h := Registers.addAlias l p pattern data
  refine ⟨h.registry, h.conditions, h.diagnostics, ?_⟩
  rw [Request.allFaults, Request.allFaults, List.append_nil]
  exact h.reported

theorem addGroup (l : Loader) (name : String) (g : VariationGroup) :
    l.Serves [.group name g] { l with registry := l.registry.addGroup name g } :=
  ⟨rfl, rfl, List.prefix_rfl, nofun⟩

theorem addVariation (l : Loader) (p : Place) (g : VariationGroup) (key value : String) :
    l.Serves [] (l.addVariation p g key value).1 ∧
      (l.addVariation p g key value).2 = Request.addTo g key value := by
  rw [Loader.addVariation, Request.addTo]
  cases Variation.read value.toList with
  | error fault => exact ⟨of_registers (.report l p fault), rfl⟩
  | ok v =>
    have warned : ∃ fs, l.Registers [] fs
        (if key ≠ VariationGroup.defaultKey ∧ v.isUseless then l.report p (.uselessVariation key)
        else l) := by
      split
      · exact ⟨_, .report l p _⟩
      · exact ⟨_, .refl l⟩
    obtain ⟨fs, warned⟩ := warned
    have expanded := warned.trans (.expand _ key)
    refine ⟨of_registers (expanded.trans (.reportAll _ p _)), ?_⟩
    rw [← Pattern.Expander.expand_fst]
    rfl

theorem variations (source : Option String) (l : Loader) (g : VariationGroup)
    (ns : List Outline.Node) : l.Serves [] (variations source l g ns).1 ∧
      (Loader.variations source l g ns).2 = Request.groupOf g ns := by
  induction ns generalizing l g with
  | nil => exact ⟨.refl l, rfl⟩
  | cons n ns ih =>
    cases n with
    | entry key value line =>
      have first := addVariation l ⟨source, line⟩ g key value
      rw [Loader.variations, Request.groupOf]
      cases hv : l.addVariation ⟨source, line⟩ g key value with
      | mk l' g' =>
        rw [hv] at first
        have rest := ih l' g'
        simp only [← first.2]
        exact ⟨first.1.trans rest.1, rest.2⟩
    | heading key line children =>
      have rest := ih (l.report ⟨source, line⟩ .unexpectedSection) g
      exact ⟨(of_registers (.report l _ _)).trans rest.1, rest.2⟩

theorem nodes (source : Option String) (l : Loader) (ns : List Outline.Node) :
    l.Serves (Request.ofNodes l.conditions ns) (nodes source l ns) := by
  induction ns generalizing l with
  | nil => exact .refl l
  | cons n ns ih =>
    cases n with
    | heading key line children =>
      rw [Loader.nodes, Request.ofNodes]
      split
      · have built := variations source l .empty children
        cases hv : Loader.variations source l .empty children with
        | mk l' g =>
          rw [hv] at built
          have added := built.1.trans (addGroup l' key g)
          have rest := ih { l' with registry := l'.registry.addGroup key g }
          rw [← built.1.conditions]
          simp only [← built.2]
          exact added.trans rest
      · exact (of_registers (.report l _ _)).trans (ih _)
    | entry key value line =>
      rw [Loader.nodes, Request.ofNodes]
      cases l.conditions.check key value with
      | none =>
        have first := addAlias l ⟨source, line⟩ key value
        have rest := ih (l.addAlias ⟨source, line⟩ key value)
        rw [first.conditions] at rest
        exact first.trans rest
      | some met =>
        cases met with
        | true => exact ih l
        | false => exact .refl l

theorem outline (source : Option String) (l : Loader) (ns : List Outline.Node) :
    l.Serves (Request.ofOutline l.conditions ns) (outline source l ns) := by
  induction ns generalizing l with
  | nil => exact .refl l
  | cons n ns ih =>
    cases n with
    | heading key line children =>
      have first := nodes source l children
      have rest := ih (Loader.nodes source l children)
      rw [first.conditions] at rest
      exact first.trans rest
    | entry key value line => exact (of_registers (.report l _ _)).trans (ih _)

theorem text (l : Loader) (source : Option String) (text : String) :
    l.Serves (Request.ofText l.conditions text) (l.text source text) := by
  rw [Loader.text, Request.ofText]
  cases Outline.read text with
  | mk ns faults =>
    have reported := Registers.foldl l (fun l f _ => .report l ⟨source, f.1⟩ f.2) faults
    rw [List.flatMap_eq_nil_iff.mpr fun _ _ => rfl] at reported
    have read := outline source (faults.foldl (fun l f => l.report ⟨source, f.1⟩ f.2) l) ns
    rw [reported.conditions] at read
    exact (of_registers reported).trans read

end Serves

end Loader

end ItemLexicon
