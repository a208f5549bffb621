import ItemLexicon.Proofs.CarriedChanges
import ItemLexicon.Proofs.LoadedRegistry

namespace ItemLexicon

namespace Conditions

variable (cs : Conditions)

def gates : Outline.Node → Bool
  | .entry key _ _ => Dictionary.contains key cs
  | .heading .. => false

def stops : Outline.Node → Bool
  | .entry key value _ => cs.check key value == some false
  | .heading .. => false

/-- The nodes before the first condition that does not hold, without the conditions. -/
def admitted (ns : List Outline.Node) : List Outline.Node :=
  (ns.takeWhile fun n => !cs.stops n).filter fun n => !cs.gates n

theorem admitted_heading (key : String) (line : Nat) (children ns : List Outline.Node) :
    cs.admitted (.heading key line children :: ns) =
      .heading key line children :: cs.admitted ns := rfl

theorem contains_eq_isSome_check (key value : String) :
    Dictionary.contains key cs = (cs.check key value).isSome := by
  rw [Dictionary.contains, check, Option.isSome_map]

theorem admitted_entry (key value : String) (line : Nat) (ns : List Outline.Node) :
    cs.admitted (.entry key value line :: ns) =
      match cs.check key value with
      | some true => cs.admitted ns
      | some false => []
      | none => .entry key value line :: cs.admitted ns := by
  have known := cs.contains_eq_isSome_check key value
  rw [admitted, admitted]
  cases met : cs.check key value with
  | none => simp [stops, gates, known, met]
  | some holds => cases holds <;> simp [stops, gates, known, met]

end Conditions

namespace Loader

def unconditional (l : Loader) : Loader := { l with conditions := [] }

theorem isCarried_unconditional : IsCarried unconditional id :=
  ⟨fun _ => rfl, fun _ => rfl, fun _ _ => rfl, fun _ _ => rfl, fun _ _ _ => rfl⟩

theorem nodes_unconditional (source : Option String) (l : Loader) (ns : List Outline.Node) :
    (nodes source l ns).unconditional =
      nodes source l.unconditional (l.conditions.admitted ns) := by
  have carried := isCarried_unconditional
  induction ns generalizing l with
  | nil => rfl
  | cons n ns ih =>
    cases n with
    | heading key line children =>
      have kept := (Serves.variations source l .empty children).1.conditions
      simp only [nodes, Conditions.admitted_heading, carried.variations fun _ => rfl]
      split
      · rw [ih, kept]
        rfl
      · exact ih _
    | entry key value line =>
      rw [nodes, Conditions.admitted_entry]
      cases l.conditions.check key value with
      | none =>
        have kept := (Serves.addAlias l ⟨source, line⟩ key value).conditions
        have added : l.unconditional.addAlias ⟨source, line⟩ key value =
            (l.addAlias ⟨source, line⟩ key value).unconditional := carried.addAlias ..
        have free : l.unconditional.conditions.check key value = none := rfl
        simp only [nodes, free, added, ih, kept]
      | some holds =>
        cases holds with
        | true => exact ih l
        | false => rfl

def addAdmitted (cs : Conditions) (source : Option String) (l : Loader) : Outline.Node → Loader
  | .heading _ _ children => nodes source l (cs.admitted children)
  | .entry _ _ line => l.report ⟨source, line⟩ .outsideSection

theorem outline_unconditional (source : Option String) (l : Loader) (ns : List Outline.Node) :
    (outline source l ns).unconditional =
      ns.foldl (addAdmitted l.conditions source) l.unconditional := by
  induction ns generalizing l with
  | nil => rfl
  | cons n ns ih =>
    cases n with
    | heading key line children =>
      have kept := (Serves.nodes source l children).conditions
      rw [outline, ih, kept, nodes_unconditional]
      rfl
    | entry key value line => exact ih (l.report ⟨source, line⟩ .outsideSection)

/-- A section leaves what its nodes before the first condition that fails leave, with the conditions
taken out, where there are none; and a text leaves what its sections do, one after the other. -/
theorem unconditional_text (l : Loader) (source : Option String) :
    (∀ ns, (nodes source l ns).unconditional =
      nodes source l.unconditional (l.conditions.admitted ns)) ∧
    ∀ s, (l.text source s).unconditional =
      (Outline.read s).1.foldl (addAdmitted l.conditions source)
        ((Outline.read s).2.foldl (fun l f => l.report ⟨source, f.1⟩ f.2) l.unconditional) := by
  refine ⟨nodes_unconditional source l, fun s => ?_⟩
  cases hs : Outline.read s with
  | mk ns faults =>
    have kept : (faults.foldl (fun l f => l.report ⟨source, f.1⟩ f.2) l).conditions =
        l.conditions :=
      (Registers.foldl l (fun l f _ => .report l ⟨source, f.1⟩ f.2) faults).conditions
    have reported : faults.foldl (fun l f => l.report ⟨source, f.1⟩ f.2) l.unconditional =
        (faults.foldl (fun l f => l.report ⟨source, f.1⟩ f.2) l).unconditional :=
      IsCarried.foldl (fun l f => isCarried_unconditional.report l ⟨source, f.1⟩ f.2) l faults
    simp only [text, hs, outline_unconditional, kept, reported]

end Loader

end ItemLexicon
