import ItemLexicon.Proofs.VariationProduct
import ItemLexicon.Proofs.Words

namespace ItemLexicon.Expansion

variable {find : String → Option VariationGroup}

/-- A name is text and references to known groups, one after the other. -/
inductive Reads (find : String → Option VariationGroup) : List Char → List VariationGroup → Prop
  | text {s : List Char} (plain : IsPlain s) : Reads find s []
  | group {before inner s : List Char} {g : VariationGroup} {gs : List VariationGroup}
    (open' : '\x7d' ∉ before) (plain : IsPlain inner)
    (known : find (String.ofList ('\x7b' :: (inner ++ ['\x7d']))) = some g)
    (rest : Reads find s gs) : Reads find (before ++ '\x7b' :: (inner ++ '\x7d' :: s)) (g :: gs)

theorem isPlain_iff {s : List Char} : IsPlain s ↔ '\x7b' ∉ s ∧ '\x7d' ∉ s := by
  constructor
  · intro plain
    exact ⟨fun h => absurd (plain _ h) (by decide), fun h => absurd (plain _ h) (by decide)⟩
  · rintro ⟨opens, closes⟩ c hc
    have opens' : c ≠ '\x7b' := fun e => opens (e ▸ hc)
    have closes' : c ≠ '\x7d' := fun e => closes (e ▸ hc)
    simp [isBrace, opens', closes']

theorem append_closer_inj {s t u v : List Char} (hs : '\x7d' ∉ s) (ht : '\x7d' ∉ t) :
    s ++ '\x7d' :: u = t ++ '\x7d' :: v ↔ s = t ∧ u = v := by
  constructor
  · intro h
    have first := Text.cut_append_cons hs u
    rw [h, Text.cut_append_cons ht, Option.some_inj, Prod.mk.injEq] at first
    exact ⟨first.1.symm, first.2.symm⟩
  · rintro ⟨rfl, rfl⟩
    rfl

namespace Reads

variable {s before body : List Char} {gs : List VariationGroup}

theorem iff_of_open (h : '\x7d' ∉ s) : Reads find s gs ↔ IsPlain s ∧ gs = [] := by
  constructor
  · rintro (plain | -)
    · exact ⟨plain, rfl⟩
    · simp at h
  · rintro ⟨plain, rfl⟩
    exact .text plain

theorem not_of_surplus (plain : IsPlain before) : ¬ Reads find (before ++ '\x7d' :: s) gs := by
  intro h
  generalize whole : before ++ '\x7d' :: s = name at h
  cases h with
  | text plain' =>
    subst whole
    exact (isPlain_iff.mp plain').2 (by simp)
  | group open' plain' known rest =>
    have surplus := isPlain_iff.mp plain
    rw [← List.cons_append, ← List.append_assoc, append_closer_inj surplus.2
      (by simp [open', (isPlain_iff.mp plain').2])] at whole
    exact surplus.1 (by simp [whole.1])

theorem iff_of_group (open' : '\x7d' ∉ before) (plain : IsPlain body) :
    Reads find (before ++ '\x7b' :: body ++ '\x7d' :: s) gs ↔
      ∃ g rest, gs = g :: rest ∧
        find (String.ofList ('\x7b' :: (body ++ ['\x7d']))) = some g ∧ Reads find s rest := by
  have inside := isPlain_iff.mp plain
  have closed : '\x7d' ∉ before ++ '\x7b' :: body := by simp [open', inside.2]
  constructor
  · intro h
    generalize whole : before ++ '\x7b' :: body ++ '\x7d' :: s = name at h
    cases h with
    | text plain' =>
      subst whole
      exact absurd (by simp) (isPlain_iff.mp plain').2
    | @group before' body' s' g rest open'' plain' known reads =>
      have inside' := isPlain_iff.mp plain'
      rw [← List.cons_append, ← List.append_assoc, append_closer_inj closed
        (by simp [open'', inside'.2])] at whole
      obtain ⟨cut, rfl⟩ := whole
      have same := Text.cutLast_append_cons inside.1 before
      rw [cut, Text.cutLast_append_cons inside'.1, Option.some_inj, Prod.mk.injEq] at same
      obtain ⟨rfl, rfl⟩ := same
      exact ⟨g, rest, rfl, known, reads⟩
  · rintro ⟨g, rest, rfl, known, reads⟩
    have joined := Reads.group open' plain known reads
    rwa [← List.cons_append, ← List.append_assoc] at joined

end Reads

namespace Slot

def group? : Slot → Option VariationGroup
  | .text _ => none
  | .group g => some g

theorem mem_filterMap_group? {ss : List Slot} {g : VariationGroup} :
    g ∈ ss.filterMap group? ↔ .group g ∈ ss := by
  rw [List.mem_filterMap]
  constructor
  · rintro ⟨s, hs, hg⟩
    cases s with
    | text => cases hg
    | group => cases hg; exact hs
  · exact fun h => ⟨_, h, rfl⟩

end Slot

namespace Cutter

def pending (c : Cutter) : List Char := c.before ++ (c.opened.map Prod.snd).getD []

/-- No brace has been closed since the last group, and what is open begins with its brace. -/
def IsSound (c : Cutter) : Prop :=
  match c.opened with
  | none => IsPlain c.before
  | some (_, inner) => '\x7d' ∉ c.before ∧ ∃ body, inner = '\x7b' :: body ∧ IsPlain body

theorem isSound_empty (n : Nat) : IsSound ⟨n, [], none⟩ :=
  fun _ hc => absurd hc List.not_mem_nil

def read (c : Cutter) (d : Char) : Cutter :=
  if d = '\x7b' then ⟨c.offset + 1, c.pending, some (c.offset, ['\x7b'])⟩
  else match c.opened with
    | none => ⟨c.offset + 1, c.before ++ [d], none⟩
    | some (start, inner) => ⟨c.offset + 1, c.before, some (start, inner ++ [d])⟩

variable {c : Cutter} {d : Char}

theorem slots_read (hd : d ≠ '\x7d') (s : List Char) :
    slots find c (d :: s) = slots find (c.read d) s := by
  obtain ⟨n, before, opened⟩ := c
  rw [read]
  by_cases opens : d = '\x7b'
  · subst opens
    cases opened <;> simp [slots, pending]
  · rw [if_neg opens, slots.eq_4 _ _ _ _ opens hd]
    cases opened <;> rfl

theorem pending_read : (c.read d).pending = c.pending ++ [d] := by
  obtain ⟨n, before, opened⟩ := c
  rw [read]
  split
  · rename_i opens
    rw [opens]
    rfl
  · cases opened <;> simp [pending]

theorem isPlain_append_singleton {s : List Char} (plain : IsPlain s) (opens : d ≠ '\x7b')
    (closes : d ≠ '\x7d') : IsPlain (s ++ [d]) := by
  rw [isPlain_iff] at plain ⊢
  simp [plain, opens.symm, closes.symm]

theorem IsSound.read (h : c.IsSound) (hd : d ≠ '\x7d') : (c.read d).IsSound := by
  obtain ⟨n, before, opened⟩ := c
  rw [Cutter.read]
  by_cases opens : d = '\x7b'
  · rw [if_pos opens]
    refine ⟨?_, [], rfl, fun _ hc => absurd hc List.not_mem_nil⟩
    cases opened with
    | none => simpa [pending] using (isPlain_iff.mp h).2
    | some o =>
      obtain ⟨open', body, inner, plain⟩ := h
      simpa [pending, inner, (isPlain_iff.mp plain).2] using open'
  · rw [if_neg opens]
    cases opened with
    | none => exact isPlain_append_singleton h opens hd
    | some o =>
      obtain ⟨open', body, inner, plain⟩ := h
      exact ⟨open', body ++ [d], by rw [inner]; rfl, isPlain_append_singleton plain opens hd⟩

end Cutter

theorem slots_iff_reads {c : Cutter} (h : c.IsSound) (s : List Char) (gs : List VariationGroup) :
    (slots find c s).2 = [] ∧ (slots find c s).1.filterMap Slot.group? = gs ↔
      Reads find (c.pending ++ s) gs := by
  induction s generalizing c gs with
  | nil =>
    obtain ⟨n, before, opened⟩ := c
    cases opened with
    | none =>
      have plain : IsPlain before := h
      rw [Cutter.pending, Reads.iff_of_open (by simpa using (isPlain_iff.mp plain).2)]
      simp only [slots, Option.map_none, Option.getD_none, List.append_nil, plain, true_and]
      exact eq_comm
    | some o =>
      obtain ⟨open', body, inner, plain⟩ := h
      have closed : '\x7d' ∉ before ++ '\x7b' :: body := by
        simp [open', (isPlain_iff.mp plain).2]
      have braced : ¬ IsPlain (before ++ '\x7b' :: body) := by simp [isPlain_iff]
      simp [slots, Cutter.pending, inner, Reads.iff_of_open closed, braced]
  | cons d s ih =>
    by_cases hd : d = '\x7d'
    · subst hd
      obtain ⟨n, before, opened⟩ := c
      cases opened with
      | none =>
        have surplus := @Reads.not_of_surplus find s before gs h
        simpa [slots, Cutter.pending] using surplus
      | some o =>
        obtain ⟨start, inner⟩ := o
        obtain ⟨open', body, rfl, plain⟩ := h
        have next := Cutter.isSound_empty (n + 1)
        have whole : Cutter.pending ⟨n, before, some (start, '\x7b' :: body)⟩ ++ '\x7d' :: s =
            before ++ '\x7b' :: body ++ '\x7d' :: s := rfl
        rw [whole, Reads.iff_of_group open' plain, slots]
        simp only [List.cons_append]
        cases known : find (String.ofList ('\x7b' :: (body ++ ['\x7d']))) with
        | none => simp
        | some g =>
          have rest : ∀ gs, _ ↔ Reads find s gs := fun gs => ih next gs
          simp only [← rest, Option.some_inj]
          constructor
          · rintro ⟨faults, rfl⟩
            exact ⟨g, _, rfl, rfl, faults, rfl⟩
          · rintro ⟨g, gs, rfl, rfl, faults, rfl⟩
            exact ⟨faults, rfl⟩
    · rw [Cutter.slots_read hd, ih (h.read hd), Cutter.pending_read, ← List.append_cons]

theorem mapM_first?_eq_none {ss : List Slot} {g : VariationGroup} (hg : .group g ∈ ss)
    (empty : g.size = 0) : ss.mapM Reel.first? = none := by
  have first : Reel.first? (.group g) = none := by simp [Reel.first?, Pick.first?, empty]
  induction ss with
  | nil => cases hg
  | cons s ss ih =>
    rw [List.mapM_cons]
    rcases List.mem_cons.mp hg with rfl | hg
    · rw [first]
      rfl
    · rw [ih hg]
      cases Reel.first? s <;> rfl

theorem ofSlots_eq_nil_iff (ss : List Slot) :
    ofSlots ss = [] ↔ ∃ g, .group g ∈ ss ∧ g.size = 0 := by
  constructor
  · intro nothing
    by_contra filled
    have sizes : ∀ g, .group g ∈ ss → 0 < g.size :=
      fun g hg => Nat.pos_of_ne_zero fun empty => filled ⟨g, hg, empty⟩
    obtain ⟨rs, first, -, zero⟩ := exists_first sizes
    have here : rs ∈ (passes (volume rs) rs).map Prod.fst :=
      ((passes_complete zero le_rfl).2.1 rs).mpr rfl
    obtain ⟨q, hq, -⟩ := List.mem_map.mp here
    have named : Noun.normal q.2.name ∈ (ofSlots ss).map Prod.fst := by
      rw [ofSlots_eq_collect first, keys_collect, List.mem_eraseDups, List.map_map]
      exact List.mem_map_of_mem hq
    rw [nothing] at named
    cases named
  · rintro ⟨g, hg, empty⟩
    rw [ofSlots, mapM_first?_eq_none hg empty]

theorem ofName_eq_nil_iff (find : String → Option VariationGroup) (name : List Char) :
    ofName find name = ([], []) ↔ ∃ gs, Reads find name gs ∧ ∃ g ∈ gs, g.size = 0 := by
  have cut : ∀ gs, _ ↔ Reads find name gs :=
    slots_iff_reads (Cutter.isSound_empty 0) name
  rw [ofName, Prod.mk.injEq, ofSlots_eq_nil_iff]
  constructor
  · rintro ⟨⟨g, hg, empty⟩, faults⟩
    exact ⟨_, (cut _).mp ⟨faults, rfl⟩, g, Slot.mem_filterMap_group?.mpr hg, empty⟩
  · rintro ⟨gs, reads, g, hg, empty⟩
    obtain ⟨faults, rfl⟩ := (cut gs).mpr reads
    exact ⟨⟨g, Slot.mem_filterMap_group?.mp hg, empty⟩, faults⟩

end ItemLexicon.Expansion
