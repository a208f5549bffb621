import ItemLexicon.Definition.Expansion
import Mathlib.Algebra.Order.Ring.Nat
import Mathlib.Data.List.Nodup

/-! The passes over the reels of a name as the turning of an odometer, whose digits are the entries
that the groups stand at, the leftmost one the lowest. -/

namespace ItemLexicon.Expansion

namespace Reel

def slot : Reel → Slot
  | .text s => .text s
  | .entry p => .group p.group

def spelling : Reel → List Char
  | .text s => s
  | .entry p => p.key

def pick? : Reel → Option Pick
  | .text _ => none
  | .entry p => some p

end Reel

def picks (rs : List Reel) : List Pick := rs.filterMap Reel.pick?

@[simp] theorem picks_text (s : List Char) (rs : List Reel) : picks (.text s :: rs) = picks rs :=
  rfl

@[simp] theorem picks_entry (p : Pick) (rs : List Reel) : picks (.entry p :: rs) = p :: picks rs :=
  rfl

/-- The place of a combination when the leftmost entry changes fastest. -/
def index : List Pick → Nat
  | [] => 0
  | p :: ps => p.position + p.group.size * index ps

/-- What turning the reels from the left leaves, and whether all of them have come round. -/
def advance : List Reel → List Reel × Bool
  | [] => ([], true)
  | .text s :: rs => (.text s :: (advance rs).1, (advance rs).2)
  | .entry p :: rs =>
    match p.turn with
    | (next, true) => (.entry next :: (advance rs).1, (advance rs).2)
    | (next, false) => (.entry next :: rs, false)

namespace Pick

theorem group_turn (p : Pick) : p.turn.1.group = p.group := by
  rw [turn]
  split <;> rfl

theorem position_turn (p : Pick) :
    p.turn.1.position.val + (if p.turn.2 then p.group.size else 0) = p.position.val + 1 := by
  have bound := p.position.isLt
  by_cases h : p.position.val + 1 < p.group.size
  · rw [show p.turn = (⟨p.group, p.position.val + 1, h⟩, false) from dif_pos h]
    rfl
  · rw [show p.turn = (⟨p.group, 0, Nat.zero_lt_of_lt bound⟩, true) from dif_neg h]
    simp only [if_true]
    omega

end Pick

section Passes

variable (p : Pass) (i : Nat) (r : Reel) (rs : List Reel)

theorem exists_read_entry (e : Pick) : ∃ k next, p.read i (.entry e) =
    (⟨p.name ++ e.key, p.variation.absorb e.variation, k⟩, next) := by
  rw [Pass.read]
  split
  · split <;> exact ⟨_, _, rfl⟩
  · exact ⟨_, _, rfl⟩

theorem name_read : (p.read i r).1.name = p.name ++ r.spelling := by
  cases r with
  | text s => rfl
  | entry e =>
    obtain ⟨k, next, read⟩ := exists_read_entry p i e
    rw [read]
    rfl

theorem variation_read :
    (p.read i r).1.variation = (picks [r]).foldl (fun v e => v.absorb e.variation) p.variation := by
  cases r with
  | text s => rfl
  | entry e =>
    obtain ⟨k, next, read⟩ := exists_read_entry p i e
    rw [read]
    rfl

theorem run_cons : p.run i (r :: rs) =
    (((p.read i r).1.run (i + 1) rs).1,
      (p.read i r).2 :: ((p.read i r).1.run (i + 1) rs).2) := rfl

theorem name_run : (p.run i rs).1.name = p.name ++ rs.flatMap Reel.spelling := by
  induction rs generalizing p i with
  | nil => simp [Pass.run]
  | cons r rs ih => simp [run_cons, ih, name_read]

theorem variation_run :
    (p.run i rs).1.variation = (picks rs).foldl (fun v e => v.absorb e.variation) p.variation := by
  induction rs generalizing p i with
  | nil => rfl
  | cons r rs ih =>
    rw [run_cons, ih, variation_read, ← List.foldl_append]
    cases r <;> rfl

theorem run_of_turned_lt (h : p.turned < i) :
    (p.run i rs).2 = rs ∧ (p.run i rs).1.turned = p.turned := by
  induction rs generalizing p i with
  | nil => exact ⟨rfl, rfl⟩
  | cons r rs ih =>
    have read : (p.read i r).2 = r ∧ (p.read i r).1.turned = p.turned := by
      have ne : ¬i = p.turned := by omega
      cases r with
      | text s => simp [Pass.read, ne]
      | entry e => simp [Pass.read, ne]
    have rest := ih (p.read i r).1 (i + 1) (by omega)
    exact ⟨by rw [run_cons, rest.1, read.1], by rw [run_cons, rest.2, read.2]⟩

theorem run_of_turned_eq (h : p.turned = i) :
    (p.run i rs).2 = (advance rs).1 ∧
      ((p.run i rs).1.turned = i + rs.length ↔ (advance rs).2 = true) := by
  -- The induction carries that all reels so far have come round.  From the first one that does not,
  -- the pass only reads.
  induction rs generalizing p i with
  | nil => exact ⟨rfl, by simp [Pass.run, advance, h]⟩
  | cons r rs ih =>
    subst h
    have carry : ∀ {q : Pass} {r' : Reel}, p.read p.turned r = (q, r') → q.turned = p.turned + 1 →
        (p.run p.turned (r :: rs)).2 = r' :: (advance rs).1 ∧
          ((p.run p.turned (r :: rs)).1.turned = p.turned + (rs.length + 1) ↔
            (advance rs).2 = true) := by
      intro q r' read turned
      have rest := ih q (p.turned + 1) turned
      rw [run_cons, read, rest.1, ← rest.2]
      exact ⟨rfl, by rw [Nat.add_right_comm, Nat.add_assoc]⟩
    cases r with
    | text s => exact carry rfl (by simp)
    | entry e =>
      rw [advance]
      cases turn : e.turn with
      | mk next round =>
        cases round with
        | true => exact carry (by simp [Pass.read, turn]; rfl) rfl
        | false =>
          have read : p.read p.turned (.entry e) = (⟨p.name ++ e.key,
              p.variation.absorb e.variation, p.turned⟩, .entry next) := by
            simp [Pass.read, turn]
          have rest := run_of_turned_lt ⟨p.name ++ e.key, p.variation.absorb e.variation, p.turned⟩
            (p.turned + 1) rs (Nat.lt_succ_self _)
          rw [run_cons, read]
          exact ⟨by rw [rest.1], by simp [rest.2]⟩

end Passes

theorem passes_succ (fuel : Nat) (rs : List Reel) :
    passes (fuel + 1) rs = (rs, (Pass.start.run 0 rs).1) ::
      if (advance rs).2 then [] else passes fuel (advance rs).1 := by
  obtain ⟨next, round⟩ := run_of_turned_eq .start 0 rs rfl
  rw [Nat.zero_add] at round
  simp only [passes, next, round]

theorem slot_advance (rs : List Reel) : (advance rs).1.map Reel.slot = rs.map Reel.slot := by
  induction rs with
  | nil => rfl
  | cons r rs ih =>
    cases r with
    | text s => simp [advance, ih]
    | entry p =>
      have group := p.group_turn
      rw [advance]
      split <;> rename_i next turn <;> rw [turn] at group <;> simp_all [Reel.slot]

theorem volume_congr {rs rs' : List Reel} (h : rs.map Reel.slot = rs'.map Reel.slot) :
    volume rs = volume rs' := by
  induction rs generalizing rs' with
  | nil => cases rs' <;> simp_all
  | cons r rs ih =>
    cases rs' with
    | nil => cases h
    | cons r' rs' =>
      rw [List.map_cons, List.map_cons, List.cons.injEq] at h
      have size : r.size = r'.size := by
        cases r <;> cases r' <;> simp_all [Reel.slot, Reel.size]
      simp only [volume, List.foldr_cons] at ih ⊢
      rw [size, ih h.2]

theorem index_lt_volume (rs : List Reel) : index (picks rs) < volume rs := by
  induction rs with
  | nil => exact Nat.zero_lt_one
  | cons r rs ih =>
    cases r with
    | text s => simpa [volume, Reel.size] using ih
    | entry p =>
      calc p.position + p.group.size * index (picks rs)
        _ < p.group.size * (index (picks rs) + 1) := by
          rw [Nat.mul_succ, Nat.add_comm]
          exact Nat.add_lt_add_left p.position.isLt _
        _ ≤ p.group.size * volume rs := Nat.mul_le_mul_left _ ih

theorem index_advance (rs : List Reel) :
    index (picks (advance rs).1) + (if (advance rs).2 then volume rs else 0) =
      index (picks rs) + 1 := by
  induction rs with
  | nil => rfl
  | cons r rs ih =>
    cases r with
    | text s => simpa [advance, volume, Reel.size] using ih
    | entry p =>
      have position := p.position_turn
      have group := p.group_turn
      rw [advance]
      split <;> rename_i next turn <;> rw [turn] at position group
      · have split : (if (advance rs).2 then p.group.size * volume rs else 0) =
            p.group.size * if (advance rs).2 then volume rs else 0 := by
          split <;> simp
        simp only [if_true] at position group
        simp only [picks_entry, index, group]
        rw [show volume (.entry p :: rs) = p.group.size * volume rs from rfl, split, Nat.add_assoc,
          ← Nat.mul_add, ih, Nat.mul_succ]
        omega
      · simp only [Bool.false_eq_true, if_false, Nat.add_zero] at position group ⊢
        simp only [picks_entry, index, group, position]
        exact Nat.add_right_comm ..

theorem advance_of_last {rs : List Reel} (h : (advance rs).2 = true) :
    index (picks rs) + 1 = volume rs := by
  have step := index_advance rs
  have bound := index_lt_volume rs
  rw [if_pos h] at step
  omega

theorem advance_of_not_last {rs : List Reel} (h : (advance rs).2 = false) :
    index (picks (advance rs).1) = index (picks rs) + 1 ∧ volume (advance rs).1 = volume rs := by
  have step := index_advance rs
  rw [h] at step
  exact ⟨step, volume_congr (slot_advance rs)⟩

theorem index_passes {fuel : Nat} {rs : List Reel} (h : volume rs ≤ index (picks rs) + fuel) :
    (passes fuel rs).map (fun q => index (picks q.1)) =
      List.range' (index (picks rs)) (volume rs - index (picks rs)) := by
  have bound := index_lt_volume rs
  induction fuel generalizing rs with
  | zero => omega
  | succ fuel ih =>
    rw [passes_succ, List.map_cons]
    cases last : (advance rs).2 with
    | true =>
      rw [← advance_of_last last, Nat.add_sub_cancel_left]
      rfl
    | false =>
      obtain ⟨next, total⟩ := advance_of_not_last last
      have left : volume (advance rs).1 ≤ index (picks (advance rs).1) + fuel := by omega
      have rest := ih left (index_lt_volume _)
      rw [next, total] at rest
      rw [if_neg Bool.false_ne_true, rest, ← List.range'_succ]
      congr 1
      omega

theorem passes_eq {fuel more : Nat} {rs : List Reel} (h : volume rs ≤ index (picks rs) + fuel)
    (le : fuel ≤ more) : passes more rs = passes fuel rs := by
  have bound := index_lt_volume rs
  induction fuel generalizing rs more with
  | zero => omega
  | succ fuel ih =>
    obtain ⟨more, rfl⟩ := Nat.exists_eq_add_one_of_ne_zero (Nat.ne_zero_of_lt le)
    rw [passes_succ, passes_succ]
    cases last : (advance rs).2 with
    | true => rfl
    | false =>
      obtain ⟨next, total⟩ := advance_of_not_last last
      rw [ih (by omega) (Nat.le_of_succ_le_succ le) (index_lt_volume _)]

theorem pass_of_mem {fuel : Nat} {rs : List Reel} {q : List Reel × Pass}
    (hq : q ∈ passes fuel rs) :
    q.1.map Reel.slot = rs.map Reel.slot ∧ q.2 = (Pass.start.run 0 q.1).1 := by
  induction fuel generalizing rs with
  | zero => cases hq
  | succ fuel ih =>
    rw [passes_succ, List.mem_cons] at hq
    rcases hq with rfl | hq
    · exact ⟨rfl, rfl⟩
    · split at hq
      · cases hq
      · rw [← slot_advance rs]
        exact ih hq

theorem eq_of_index_eq {rs rs' : List Reel} (slots : rs.map Reel.slot = rs'.map Reel.slot)
    (number : index (picks rs) = index (picks rs')) : rs = rs' := by
  induction rs generalizing rs' with
  | nil =>
    cases rs' with
    | nil => rfl
    | cons => cases slots
  | cons r rs ih =>
    cases rs' with
    | nil => cases slots
    | cons r' rs' =>
      rw [List.map_cons, List.map_cons, List.cons.injEq] at slots
      cases r with
      | text s =>
        cases r' with
        | text s' =>
          cases slots.1
          rw [ih slots.2 number]
        | entry => cases slots.1
      | entry p =>
        cases r' with
        | text => cases slots.1
        | entry p' =>
          obtain ⟨g, n⟩ := p
          obtain ⟨g', n'⟩ := p'
          cases slots.1
          simp only [picks_entry, index] at number
          have digit : n = n' := by
            apply Fin.ext
            have := congrArg (· % g.size) number
            simpa [Nat.mod_eq_of_lt n.isLt, Nat.mod_eq_of_lt n'.isLt] using this
          subst digit
          have rest := Nat.eq_of_mul_eq_mul_left (Nat.zero_lt_of_lt n.isLt)
            (Nat.add_left_cancel number)
          rw [ih slots.2 rest]

theorem exists_first {ss : List Slot} (sizes : ∀ g, .group g ∈ ss → 0 < g.size) :
    ∃ rs, ss.mapM Reel.first? = some rs ∧ rs.map Reel.slot = ss ∧ index (picks rs) = 0 := by
  induction ss with
  | nil => exact ⟨[], rfl, rfl, rfl⟩
  | cons s ss ih =>
    obtain ⟨rs, first, slots, zero⟩ := ih fun g hg => sizes g (List.mem_cons_of_mem _ hg)
    cases s with
    | text s =>
      refine ⟨.text s :: rs, ?_, by rw [List.map_cons, slots]; rfl, zero⟩
      rw [List.mapM_cons, first]
      rfl
    | group g =>
      have pos := sizes g List.mem_cons_self
      refine ⟨.entry ⟨g, 0, pos⟩ :: rs, ?_, by rw [List.map_cons, slots]; rfl, ?_⟩
      · rw [List.mapM_cons, first, Reel.first?, Pick.first?, dif_pos pos]
        rfl
      · rw [picks_entry, index, zero]
        rfl

theorem passes_complete {fuel : Nat} {rs : List Reel} (first : index (picks rs) = 0)
    (h : volume rs ≤ fuel) :
    ((passes fuel rs).map Prod.fst).Nodup ∧
      (∀ rs', rs' ∈ (passes fuel rs).map Prod.fst ↔ rs'.map Reel.slot = rs.map Reel.slot) ∧
      ((passes fuel rs).map Prod.fst).map (fun rs' => index (picks rs')) =
        List.range (volume rs) := by
  have numbers : ((passes fuel rs).map Prod.fst).map (fun rs' => index (picks rs')) =
      List.range (volume rs) := by
    rw [List.map_map, List.range_eq_range', ← Nat.sub_zero (volume rs), ← first]
    exact index_passes (by rwa [first, Nat.zero_add])
  refine ⟨?_, fun rs' => ⟨?_, fun slots => ?_⟩, numbers⟩
  · refine List.Nodup.of_map (fun rs' => index (picks rs')) ?_
    rw [numbers]
    exact List.nodup_range
  · intro found
    obtain ⟨q, hq, rfl⟩ := List.mem_map.mp found
    exact (pass_of_mem hq).1
  · -- Some pass has the number of these reels, and so finds them.
    have listed : index (picks rs') ∈ List.range (volume rs) := by
      rw [List.mem_range, ← volume_congr slots]
      exact index_lt_volume rs'
    rw [← numbers] at listed
    obtain ⟨rs'', found, number⟩ := List.mem_map.mp listed
    obtain ⟨q, hq, rfl⟩ := List.mem_map.mp found
    rwa [← eq_of_index_eq ((pass_of_mem hq).1.trans slots.symm) number]

end ItemLexicon.Expansion
