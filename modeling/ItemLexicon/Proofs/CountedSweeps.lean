import ItemLexicon.Proofs.VariationProduct

namespace ItemLexicon.Expansion

structure Sweep where
  name : List Char
  variation : Variation
  turned : Nat
  counters : List Nat

namespace Sweep

def start (counters : List Nat) : Sweep := ⟨[], .empty, 0, counters⟩

def read? (w : Sweep) (index : Nat) : Slot → Option Sweep
  | .text s =>
    some ⟨w.name ++ s, w.variation, if index = w.turned then w.turned + 1 else w.turned, w.counters⟩
  | .group g => do
    let counter ← w.counters[index]?
    let (key, v) ← g.entries[counter]?
    let name := w.name ++ key.toList
    let variation := w.variation.absorb v
    if index ≠ w.turned then return ⟨name, variation, w.turned, w.counters⟩
    else if counter + 1 = g.size then
      return ⟨name, variation, w.turned + 1, w.counters.set index 0⟩
    else return ⟨name, variation, w.turned, w.counters.set index (counter + 1)⟩

def run? (w : Sweep) (index : Nat) : List Slot → Option Sweep
  | [] => some w
  | s :: ss => do
    let w ← w.read? index s
    w.run? (index + 1) ss

end Sweep

/-- What the sweeps read one after the other, until all counters have come round; at most so many
sweeps. -/
def sweeps? (ss : List Slot) : Nat → List Nat → Option Named
  | 0, _ => some []
  | fuel + 1, counters => do
    let w ← (Sweep.start counters).run? 0 ss
    let rest ← if w.turned = ss.length then some [] else sweeps? ss fuel w.counters
    return (w.name, w.variation) :: rest

def countedSlots? (ss : List Slot) : Option Named :=
  match ss.mapM Reel.first? with
  | none => some []
  | some rs => (sweeps? ss (volume rs) (List.replicate ss.length 0)).map fun all =>
    collect (all.map fun q => (Noun.normal q.1, q.2))

def countedName? (find : String → Option VariationGroup) (name : List Char) :
    Option (Named × List Fault) :=
  let (ss, faults) := slots find ⟨0, [], none⟩ name
  (countedSlots? ss).map (·, faults)

def Reel.counter : Reel → Nat
  | .text _ => 0
  | .entry p => p.position

def Pass.sweep (p : Pass) (counters : List Nat) : Sweep :=
  ⟨p.name, p.variation, p.turned, counters⟩

theorem Pick.entries_position (p : Pick) :
    p.group.entries[p.position.val]? = some (p.group.entries.get p.position) :=
  List.getElem?_eq_getElem p.position.isLt

theorem Sweep.read?_slot (p : Pass) (before : List Nat) (r : Reel) (after : List Nat) :
    (p.sweep (before ++ r.counter :: after)).read? before.length r.slot =
      some ((p.read before.length r).1.sweep
        (before ++ (p.read before.length r).2.counter :: after)) := by
  cases r with
  | text s => rfl
  | entry e =>
    have counter : (before ++ e.position.val :: after)[before.length]? = some e.position.val := by
      simp
    have set (n : Nat) : (before ++ e.position.val :: after).set before.length n =
        before ++ n :: after := by simp
    simp only [Sweep.read?, Pass.sweep, Reel.slot, Reel.counter, counter, Option.bind_eq_bind,
      Option.bind_some, e.entries_position, set, Pass.read]
    by_cases turn : before.length = p.turned
    · by_cases last : e.position.val + 1 < e.group.size
      · have more : ¬e.position.val + 1 = e.group.size := Nat.ne_of_lt last
        simp only [turn, ne_eq, not_true, if_false, if_true, Pick.turn, dif_pos last, if_neg more]
        rfl
      · have round : e.position.val + 1 = e.group.size := by
          have := e.position.isLt
          omega
        simp only [turn, ne_eq, not_true, if_false, if_true, Pick.turn, dif_neg last, if_pos round]
        rfl
    · simp only [turn, ne_eq, not_false_iff, if_true, if_false]
      rfl

theorem Sweep.run?_slots (p : Pass) (before : List Nat) (rs : List Reel) :
    (p.sweep (before ++ rs.map Reel.counter)).run? before.length (rs.map Reel.slot) =
      some ((p.run before.length rs).1.sweep
        (before ++ (p.run before.length rs).2.map Reel.counter)) := by
  induction rs generalizing p before with
  | nil => rfl
  | cons r rs ih =>
    rw [List.map_cons, List.map_cons, Sweep.run?, Sweep.read?_slot, run_cons]
    have rest := ih (p.read before.length r).1 (before ++ [(p.read before.length r).2.counter])
    rw [List.length_append, List.length_singleton, ← List.append_cons, ← List.append_cons] at rest
    exact rest

theorem sweeps?_slots (fuel : Nat) (rs : List Reel) :
    sweeps? (rs.map Reel.slot) fuel (rs.map Reel.counter) =
      some ((passes fuel rs).map fun q => (q.2.name, q.2.variation)) := by
  induction fuel generalizing rs with
  | zero => rfl
  | succ fuel ih =>
    have first : (Sweep.start (rs.map Reel.counter)).run? 0 (rs.map Reel.slot) =
        some ((Pass.start.run 0 rs).1.sweep ((Pass.start.run 0 rs).2.map Reel.counter)) :=
      Sweep.run?_slots .start [] rs
    have kept : (Pass.start.run 0 rs).2.map Reel.slot = rs.map Reel.slot := by
      rw [(run_of_turned_eq .start 0 rs rfl).1, slot_advance]
    have rest := ih (Pass.start.run 0 rs).2
    rw [kept] at rest
    simp only [sweeps?, first, Option.bind_eq_bind, Option.bind_some, Pass.sweep, rest,
      List.length_map, passes]
    split <;> rfl

theorem mapM_first?_eq_some {ss : List Slot} {rs : List Reel}
    (first : ss.mapM Reel.first? = some rs) :
    rs.map Reel.slot = ss ∧ rs.map Reel.counter = List.replicate ss.length 0 := by
  induction ss generalizing rs with
  | nil =>
    cases first
    exact ⟨rfl, rfl⟩
  | cons s ss ih =>
    rw [List.mapM_cons] at first
    obtain ⟨r, hr, first⟩ := Option.bind_eq_some_iff.mp first
    obtain ⟨rs, hrs, first⟩ := Option.bind_eq_some_iff.mp first
    cases first
    obtain ⟨slots, zero⟩ := ih hrs
    have start : r.slot = s ∧ r.counter = 0 := by
      cases s with
      | text s =>
        cases hr
        exact ⟨rfl, rfl⟩
      | group g =>
        obtain ⟨p, hp, rfl⟩ := Option.map_eq_some_iff.mp hr
        rw [Pick.first?] at hp
        split at hp
        · cases hp
          exact ⟨rfl, rfl⟩
        · cases hp
    rw [List.map_cons, List.map_cons, start.1, start.2, slots, zero]
    exact ⟨rfl, rfl⟩

theorem countedSlots?_eq (ss : List Slot) : countedSlots? ss = some (ofSlots ss) := by
  cases first : ss.mapM Reel.first? with
  | none => rw [countedSlots?, ofSlots, first]
  | some rs =>
    obtain ⟨slots, zero⟩ := mapM_first?_eq_some first
    have read := sweeps?_slots (volume rs) rs
    rw [slots, zero] at read
    simp only [countedSlots?, first, read, Option.map_some, ofSlots_eq_collect first, List.map_map]
    rfl

theorem countedName?_eq (find : String → Option VariationGroup) (name : List Char) :
    countedName? find name = some (ofName find name) := by
  rw [countedName?, ofName]
  simp only [countedSlots?_eq, Option.map_some]

end ItemLexicon.Expansion
