import ItemLexicon.Proofs.Membership

namespace ItemLexicon.Selector

inductive Form
  | items
  | blocks
  deriving DecidableEq

namespace Form

def make : Form → Selection → Selection
  | .items => itemsOf
  | .blocks => blocksOf

def kept? (f : Form) (s : Selector) : Option Selection :=
  match f with
  | .items => s.items
  | .blocks => s.blocks

def ask (f : Form) (s : Selector) : Selection × Selector :=
  match f with
  | .items => s.itemForm
  | .blocks => s.blockForm

end Form

inductive Action
  | add (i : Item)
  | addAll (is : List Item)
  | remove (index : Nat)
  | retain (keep : Item → Bool)
  | setAmount (amount : Int)
  | setAll (all : Bool)
  | change (c : Change)
  | ask (f : Form)

def act (s : Selector) : Action → Selector
  | .add i => s.add i
  | .addAll is => s.addAll is
  | .remove index => s.remove index
  | .retain keep => s.retain keep
  | .setAmount amount => s.setAmount amount
  | .setAll all => s.setAll all
  | .change c => s.change c
  | .ask f => (f.ask s).2

def actAll (s : Selector) (as : List Action) : Selector := as.foldl act s

namespace Form

variable {f g : Form} {s : Selector}

/-- Whether all were meant when the kept sub-selection was made, which is when it was first asked
for since the last modification, as far as it was. -/
def note (f : Form) (s : Selector) (extent : Option Bool) : Action → Option Bool
  | .setAmount _ | .setAll _ => extent
  | .ask g => if g = f then extent.or (some s.all) else extent
  | _ => none

def noteAll (f : Form) (s : Selector) (extent : Option Bool) : List Action → Option Bool
  | [] => extent
  | a :: as => f.noteAll (s.act a) (f.note s extent a) as

theorem ask_fst (f : Form) (s : Selector) :
    (f.ask s).1 = (f.kept? s).getD (f.make s.toSelection) := by cases f <;> rfl

theorem kept?_ask_self (f : Form) (s : Selector) : f.kept? (f.ask s).2 = some (f.ask s).1 := by
  cases f <;> rfl

theorem kept?_ask_of_ne (h : g ≠ f) (s : Selector) : f.kept? (g.ask s).2 = f.kept? s := by
  cases f <;> cases g <;> first | rfl | exact absurd rfl h

@[simp] theorem toSelection_ask (f : Form) (s : Selector) :
    (f.ask s).2.toSelection = s.toSelection := by cases f <;> rfl

theorem kept?_setTypes (f : Form) (s : Selector) (types : List Item) :
    f.kept? (s.setTypes types) = none := by cases f <;> rfl

theorem kept?_change (f : Form) (s : Selector) (c : Change) : f.kept? (s.change c) = none := by
  cases f <;> cases c <;> rfl

theorem kept?_setAmount (f : Form) (s : Selector) (amount : Int) :
    f.kept? (s.setAmount amount) = (f.kept? s).map ({ · with amount := amount }) := by
  cases f <;> rfl

theorem kept?_setAll (f : Form) (s : Selector) (all : Bool) :
    f.kept? (s.setAll all) = f.kept? s := by cases f <;> rfl

theorem make_setAmount (f : Form) (s : Selector) (amount : Int) :
    f.make (s.setAmount amount).toSelection =
      { f.make s.toSelection with amount := amount } := by cases f <;> rfl

theorem make_setAll (f : Form) (s : Selector) (all : Bool) :
    f.make (s.setAll all).toSelection = { f.make s.toSelection with all := all } := by
  cases f <;> rfl

theorem all_make (f : Form) (s : Selection) : (f.make s).all = s.all := by cases f <;> rfl

/-- What is kept is what would be made now, but for the noted extent. -/
def Keeps (f : Form) (s : Selector) (extent : Option Bool) : Prop :=
  f.kept? s = extent.map fun all => { f.make s.toSelection with all := all }

theorem Keeps.ask_fst {extent : Option Bool} (h : f.Keeps s extent) :
    (f.ask s).1 = { f.make s.toSelection with all := extent.getD s.all } := by
  rw [Form.ask_fst, h]
  cases extent with
  | none =>
    rw [Option.map_none, Option.getD_none, Option.getD_none, ← f.all_make s.toSelection]
  | some all => rfl

theorem Keeps.act {extent : Option Bool} (h : f.Keeps s extent) (a : Action) :
    f.Keeps (s.act a) (f.note s extent a) := by
  cases a with
  | add | addAll | remove | retain => exact f.kept?_setTypes s _
  | change c => exact f.kept?_change s c
  | setAmount amount =>
    rw [Keeps] at h
    rw [Keeps, Selector.act, note, f.kept?_setAmount, f.make_setAmount, h, Option.map_map]
    rfl
  | setAll all =>
    rw [Keeps] at h
    rw [Keeps, Selector.act, note, f.kept?_setAll, f.make_setAll, h]
  | ask g =>
    rw [note, Keeps, Selector.act]
    split
    · rename_i same
      subst same
      rw [g.kept?_ask_self, h.ask_fst, toSelection_ask]
      cases extent <;> rfl
    · rename_i ne
      rw [kept?_ask_of_ne ne, toSelection_ask]
      exact h

theorem Keeps.actAll {extent : Option Bool} (h : f.Keeps s extent) (as : List Action) :
    f.Keeps (s.actAll as) (f.noteAll s extent as) := by
  induction as generalizing s extent with
  | nil => exact h
  | cons a as ih => exact ih (h.act a)

theorem keeps_ofSelection (f : Form) (s : Selection) : f.Keeps (ofSelection s) none := by
  cases f <;> rfl

theorem noteAll_of_no_setAll {extent : Option Bool} (h : ∀ all ∈ extent, all = s.all)
    {as : List Action} (free : ∀ all, .setAll all ∉ as) :
    ∀ all ∈ f.noteAll s extent as, all = (s.actAll as).all := by
  induction as generalizing s extent with
  | nil => exact h
  | cons a as ih =>
    have rest : ∀ all, .setAll all ∉ as := fun all ha => free all (List.mem_cons_of_mem _ ha)
    refine ih ?_ rest
    cases a with
    | add | addAll | remove | retain | change =>
      exact fun all ha => absurd ha (Option.not_mem_none all)
    | setAmount => exact h
    | setAll all => exact absurd List.mem_cons_self (free all)
    | ask g =>
      have same : (s.act (.ask g)).all = s.all :=
        congrArg Selection.all (g.toSelection_ask s)
      rw [note, same]
      split
      · cases extent with
        | none => exact fun all ha => (Option.some.inj ha).symm
        | some => exact h
      · exact h

end Form

/-- Whatever was done to a selector, it answers with the sub-selection of the same selector without
kept ones, but for the extent, which is that from when the kept one was made. -/
theorem ask_actAll (s : Selection) (as : List Action) (f : Form) :
    let t := (ofSelection s).actAll as
    let made := (f.ask (ofSelection t.toSelection)).1
    let extent := (f.noteAll (ofSelection s) none as).getD t.all
    (f.ask t).1 = { made with all := extent } ∧
    (f.ask t).1.metadata = made.metadata ∧
    ((f.ask t).1 = made ↔ extent = t.all) ∧
    ((∀ all, .setAll all ∉ as) → (f.ask t).1 = made) := by
  intro t made extent
  have fresh : made = f.make t.toSelection := by cases f <;> rfl
  have answer : (f.ask t).1 = { made with all := extent } := by
    rw [fresh]
    exact ((f.keeps_ofSelection s).actAll as).ask_fst
  have all : made.all = t.all := by rw [fresh, f.all_make]
  have iff : (f.ask t).1 = made ↔ extent = t.all := by
    rw [answer, ← all]
    exact ⟨congrArg Selection.all, fun same => by rw [same]⟩
  refine ⟨answer, by rw [answer]; rfl, iff, fun free => iff.mpr ?_⟩
  have noted : ∀ all ∈ f.noteAll (ofSelection s) none as, all = t.all :=
    Form.noteAll_of_no_setAll (fun all h => absurd h (Option.not_mem_none all)) free
  show (f.noteAll (ofSelection s) none as).getD t.all = t.all
  cases note : f.noteAll (ofSelection s) none as with
  | none => rfl
  | some all => exact noted all note

theorem ask_actAll_of_stone :
    let stone : Item := .ofDefinition 0 ⟨"minecraft:stone", true, 0⟩ [] []
    let sword : Item := .ofDefinition 1 ⟨"minecraft:diamond_sword", false, 1561⟩ [] []
    let as : List Action := [.ask .blocks, .setAmount 3, .change (.setDurability 7), .ask .blocks,
      .ask .items, .setAmount 5]
    let t := (ofItems [stone, sword]).actAll as
    (∀ all, .setAll all ∉ as) ∧
      (Form.blocks.ask t).1 = (Form.blocks.ask (ofSelection t.toSelection)).1 := by
  intro stone sword as t
  have free : ∀ all, .setAll all ∉ as := by simp [as]
  exact ⟨free, (ask_actAll (ofItems [stone, sword]).toSelection as .blocks).2.2.2 free⟩

theorem kept_items_miss_extent :
    let stone : Item := .ofDefinition 0 ⟨"minecraft:stone", true, 0⟩ [] []
    let t := (ofItems [stone]).actAll [.ask .items, .setAll true]
    t.all = true ∧ (Form.items.ask t).1.all = false ∧
      (Form.items.ask t).1 ≠ (Form.items.ask (ofSelection t.toSelection)).1 := by
  intro stone t
  refine ⟨rfl, rfl, fun same => ?_⟩
  have all : false = true := congrArg Selection.all same
  cases all

end ItemLexicon.Selector
