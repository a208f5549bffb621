import ItemLexicon.Proofs.LoadedRegistry
import ItemLexicon.Proofs.References

namespace ItemLexicon

namespace Pattern

theorem rewrites_ne_nil (bracket : Char) (before body after : List Char) :
    rewrites bracket before body after ≠ [] := by
  rw [rewrites]
  split
  · exact List.cons_ne_nil _ _
  · simpa using alternatives_ne_nil 0 body

theorem outcomes_ne_nil (closers : Nat) (s : List Char) : outcomes closers s ≠ [] := by
  induction closers generalizing s with
  | zero =>
    rw [outcomes]
    split <;> exact List.cons_ne_nil _ _
  | succ closers ih =>
    rw [outcomes]
    split
    · exact ih s
    · split
      · exact List.cons_ne_nil _ _
      · obtain ⟨first, hf⟩ := List.exists_mem_of_ne_nil _ (rewrites_ne_nil _ _ _ _)
        intro nothing
        exact ih first (List.flatMap_eq_nil_iff.mp nothing first hf)

theorem names_expand_ne_nil {s : List Char} (h : (expand s).faults = []) :
    (expand s).names ≠ [] := by
  obtain ⟨outcome, ho⟩ := List.exists_mem_of_ne_nil _ (outcomes_ne_nil (s.countP isCloser) s)
  cases outcome with
  | ok name =>
    have named : name ∈ (expand s).names :=
      List.mem_eraseDups.mpr (List.mem_filterMap.mpr ⟨_, ho, rfl⟩)
    exact List.ne_nil_of_mem named
  | error fault =>
    have reported : fault ∈ (expand s).faults :=
      List.mem_eraseDups.mpr (List.mem_filterMap.mpr ⟨_, ho, rfl⟩)
    rw [h] at reported
    cases reported

end Pattern

namespace Registry

def Accepts (r : Registry) : List Registration → Prop
  | [] => False
  | c :: cs => (r.attempt c).1 = none ∨ (r.register c).Accepts cs

theorem accepts_append (r : Registry) (cs ds : List Registration) :
    r.Accepts (cs ++ ds) ↔ r.Accepts cs ∨ (r.registerAll cs).Accepts ds := by
  induction cs generalizing r with
  | nil => simp [Accepts, registerAll]
  | cons c cs ih =>
    rw [List.cons_append, Accepts, Accepts, ih, or_assoc]
    rfl

end Registry

namespace Loader

/-- Some registration on the way to the second loader succeeds, or something is reported. -/
def Answers (l : Loader) (cs : List Registration) (l' : Loader) : Prop :=
  l.registry.Accepts cs ∨ l.diagnostics.length < l'.diagnostics.length

variable {l l' l'' : Loader} {p : Place} {cs ds : List Registration} {fs gs : List Fault}

theorem not_answers (l : Loader) : ¬ l.Answers [] l := by simp [Answers, Registry.Accepts]

theorem answers_trans_iff (h : l.Registers cs fs l') (h' : l'.Registers ds gs l'') :
    l.Answers (cs ++ ds) l'' ↔ l.Answers cs l' ∨ l'.Answers ds l'' := by
  have first := h.diagnostics.length_le
  have second := h'.diagnostics.length_le
  have grown : l.diagnostics.length < l''.diagnostics.length ↔
      l.diagnostics.length < l'.diagnostics.length ∨
        l'.diagnostics.length < l''.diagnostics.length := by omega
  rw [Answers, Answers, Answers, Registry.accepts_append, h.registry, grown, or_or_or_comm]

theorem answers_report (l : Loader) (p : Place) (fault : Fault) :
    l.Answers [] (l.report p fault) := .inr (by simp [report])

theorem answers_reportAll_iff (l : Loader) (p : Place) (faults : List Fault) :
    l.Answers [] (l.reportAll p faults) ↔ faults ≠ [] := by
  cases faults with
  | nil => simpa [reportAll] using l.not_answers
  | cons fault faults =>
    have first := Registers.report l p fault
    have rest := Registers.reportAll (l.report p fault) p faults
    have answered := (answers_trans_iff first rest).mpr (.inl (answers_report l p fault))
    exact ⟨fun _ => List.cons_ne_nil _ _, fun _ => answered⟩

theorem answers_foldl_iff {α : Type} {step : Loader → α → Loader} {f : α → List Registration}
    {g : α → List Fault} {P : α → Prop} (l : Loader)
    (h : ∀ (l' : Loader) x, l'.registry.group? = l.registry.group? →
      l'.Registers (f x) (g x) (step l' x))
    (answers : ∀ (l' : Loader) x, l'.registry.group? = l.registry.group? →
      (l'.Answers (f x) (step l' x) ↔ P x))
    (xs : List α) : l.Answers (xs.flatMap f) (xs.foldl step l) ↔ ∃ x ∈ xs, P x := by
  induction xs generalizing l with
  | nil => simpa using l.not_answers
  | cons x xs ih =>
    have first := h l x rfl
    have same : (step l x).registry.group? = l.registry.group? := first.group?
    have h' : ∀ (l' : Loader) y, l'.registry.group? = (step l x).registry.group? →
        l'.Registers (f y) (g y) (step l' y) := fun l' y eq => h l' y (eq.trans same)
    rw [List.flatMap_cons, List.foldl_cons,
      answers_trans_iff first (Registers.foldl (step l x) h' xs), answers l x rfl,
      ih (step l x) h' fun l' y eq => answers l' y (eq.trans same)]
    simp

theorem answers_addItem (l : Loader) (p : Place) (name : AliasName) (v item : Variation) :
    l.Answers (Request.ofItem name v item) (addItem p name v l item) := by
  rw [addItem, Request.ofItem]
  cases (item.merge v).id with
  | none => exact answers_report l p _
  | some id =>
    cases hc : l.registry.addAlias name (Text.lowercase id) (item.merge v).tags
      (item.merge v).states with
    | mk fault r =>
      simp only [hc]
      cases fault with
      | none => exact .inl (.inl (congrArg Prod.fst hc))
      | some fault => exact .inr (by simp [report])

theorem faults_aliasName_ne_nil {expanded : List Char} (h : (aliasName expanded).1 = none) :
    (aliasName expanded).2 ≠ [] := by
  cases hs : (Noun.forms (Noun.cutGender expanded).1).1.isEmpty <;> simp_all [aliasName]

theorem answers_addExpanded (l : Loader) (p : Place) (items : List Variation)
    (named : List Char × Variation) :
    l.Answers (Request.ofExpanded items named) (addExpanded p items l named) := by
  have nameless := @faults_aliasName_ne_nil named.1
  rw [addExpanded, Request.ofExpanded]
  cases hn : aliasName named.1 with
  | mk name faults =>
    have reported := Registers.reportAll l p faults
    cases name with
    | none =>
      rw [hn] at nameless
      exact (answers_reportAll_iff l p faults).mpr (nameless rfl)
    | some name =>
      simp only
      cases items with
      | nil =>
        have last := Registers.report (l.reportAll p faults) p (.emptyAlias name.singular)
        exact (answers_trans_iff reported last).mpr (.inr (answers_report ..))
      | cons item items =>
        have added := Registers.foldl (l.reportAll p faults)
          (fun l item _ => Registers.addItem l p name named.2 item) (item :: items)
        refine (answers_trans_iff reported added).mpr (.inr ?_)
        rw [answers_foldl_iff (P := fun _ => True) _
          (fun l item _ => Registers.addItem l p name named.2 item)
          (fun l item _ => by simp [answers_addItem])]
        exact ⟨item, List.mem_cons_self, trivial⟩

theorem answers_addName_iff (l : Loader) (p : Place) (items : List Variation)
    (name : List Char) :
    l.Answers ((Expansion.ofName l.registry.group? name).1.flatMap (Request.ofExpanded items))
      (addName p items l name) ↔ Expansion.ofName l.registry.group? name ≠ ([], []) := by
  rw [addName]
  cases Expansion.ofName l.registry.group? name with
  | mk named faults =>
    have reported := Registers.reportAll l p faults
    have added := Registers.foldl (l.reportAll p faults)
      (fun l named _ => Registers.addExpanded l p items named) named
    have answered := answers_foldl_iff (P := fun _ => True) (l.reportAll p faults)
      (fun l named _ => Registers.addExpanded l p items named)
      (fun l named _ => by simp [answers_addExpanded]) named
    rw [← List.nil_append (named.flatMap _), answers_trans_iff reported added,
      answers_reportAll_iff, answered]
    cases named <;> simp

theorem answers_addAlias_iff (l : Loader) (p : Place) (pattern data : String) :
    l.Answers ((Request.define pattern data).registrations l.registry.group?)
        (l.addAlias p pattern data) ↔
      (Text.trim pattern.toList).isEmpty = true ∨
      (definitions (Segment.nonEmpty ',' data.toList)).2 ≠ [] ∨
      (Pattern.expand pattern.toList).faults ≠ [] ∨
      ∃ name ∈ (Pattern.expand pattern.toList).names,
        Expansion.ofName l.registry.group? name ≠ ([], []) := by
  rw [addAlias, Request.registrations, Request.names]
  split
  · rename_i blank
    simp only [blank, true_or, iff_true]
    exact answers_report l p .emptyName
  · rename_i blank
    rw [Request.items]
    cases definitions (Segment.nonEmpty ',' data.toList) with
    | mk items faults =>
      have names : Pattern.expand pattern.toList = ((l.reportAll p faults).expand pattern).1 :=
        (Pattern.Expander.expand_fst ..).symm
      have data := Registers.reportAll l p faults
      have expanded := Registers.expand (l.reportAll p faults) pattern
      have silent : ¬(l.reportAll p faults).Answers [] ((l.reportAll p faults).expand pattern).2 :=
        Loader.not_answers _
      rw [names]
      cases hx : (l.reportAll p faults).expand pattern with
      | mk expansion l' =>
        rw [hx] at expanded silent
        have reported := Registers.reportAll l' p expansion.faults
        have front := data.trans (expanded.trans reported)
        have answered := answers_foldl_iff (l'.reportAll p expansion.faults)
          (fun l name same => (same.trans front.group?) ▸ Registers.addName l p items name)
          (fun l name same => (same.trans front.group?) ▸ answers_addName_iff l p items name)
          expansion.names
        have added := Registers.foldl (l'.reportAll p expansion.faults)
          (fun l name same => (same.trans front.group?) ▸ Registers.addName l p items name)
          expansion.names
        simp only [blank, Bool.false_eq_true, false_or, hx]
        rw [← answered, ← answers_reportAll_iff l p faults,
          ← answers_reportAll_iff l' p expansion.faults]
        refine (answers_trans_iff front added).trans ?_
        have first := (answers_trans_iff data (expanded.trans reported)).trans
          (or_congr_right (answers_trans_iff expanded reported))
        simp only [silent, false_or] at first
        rw [← or_assoc]
        exact or_congr_left first

/-- A line registers a name or reports something, unless there is no fault in it and each of its
names refers to known groups, one of which has no entries. -/
theorem addAlias_answers (l : Loader) (p : Place) (pattern data : String) :
    let cs := (Request.define pattern data).registrations l.registry.group?
    let expansion := Pattern.expand pattern.toList
    (l.addAlias p pattern data).registry = l.registry.registerAll cs ∧
    ((l.registry.Accepts cs ∨
        l.diagnostics.length < (l.addAlias p pattern data).diagnostics.length) ↔
      ¬((Text.trim pattern.toList).isEmpty = false ∧
        (definitions (Segment.nonEmpty ',' data.toList)).2 = [] ∧
        expansion.faults = [] ∧ expansion.names ≠ [] ∧
        ∀ name ∈ expansion.names,
          ∃ gs, Expansion.Reads l.registry.group? name gs ∧ ∃ g ∈ gs, g.size = 0)) := by
  intro cs expansion
  refine ⟨(Registers.addAlias l p pattern data).registry, ?_⟩
  have answered : (l.registry.Accepts cs ∨ _) ↔ _ := answers_addAlias_iff l p pattern data
  rw [answered]
  simp only [← Expansion.ofName_eq_nil_iff]
  constructor
  · rintro (blank | faults | faults | ⟨name, hn, found⟩) ⟨named, items, whole, -, silent⟩
    · rw [blank] at named
      cases named
    · exact faults items
    · exact faults whole
    · exact found (silent name hn)
  · intro loud
    by_contra silent
    simp only [not_or, not_exists, not_and, not_not, Bool.not_eq_true] at silent
    obtain ⟨named, items, whole, names⟩ := silent
    exact loud ⟨named, items, whole, Pattern.names_expand_ne_nil whole, names⟩

theorem addAlias_of_empty_group :
    let p : Platform := ⟨⟨[1, 20, 4]⟩, false, [⟨"minecraft:stone", true, 0⟩], []⟩
    let l := start ((Registry.empty p).addGroup "\x7bx\x7d" .empty) []
    let cs := (Request.define "\x7bx\x7d stone" "stone").registrations l.registry.group?
    ¬(l.registry.Accepts cs ∨
      l.diagnostics.length < (l.addAlias ⟨none, 3⟩ "\x7bx\x7d stone" "stone").diagnostics.length) := by
  intro p l cs
  have nothing : cs = [] := by decide +kernel
  have silent : (l.addAlias ⟨none, 3⟩ "\x7bx\x7d stone" "stone").diagnostics.length = 0 := by
    decide +kernel
  rw [nothing, silent]
  simp [Registry.Accepts]

end Loader

end ItemLexicon
