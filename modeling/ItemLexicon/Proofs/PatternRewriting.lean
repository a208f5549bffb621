import ItemLexicon.Definition.Expander

/-! The rewriting of patterns one group at a time.  What a text expands to is said by equations on
the text before its first closing bracket; an expander that scans with stacks, whatever it keeps
from earlier patterns, finds just the same. -/

namespace ItemLexicon.Pattern

theorem firstCloser_eq_none_iff {s : List Char} :
    firstCloser s = none ↔ ∀ c ∈ s, isCloser c = false := by
  induction s with
  | nil => simp [firstCloser]
  | cons c s ih =>
    rw [firstCloser]
    cases hc : isCloser c with
    | true => simp [hc]
    | false => simp [hc, ih]

theorem firstCloser_append {before : List Char} (h : ∀ c ∈ before, isCloser c = false)
    {bracket : Char} (hb : isCloser bracket = true) (after : List Char) :
    firstCloser (before ++ bracket :: after) = some (before, bracket, after) := by
  induction before with
  | nil => rw [List.nil_append, firstCloser, if_pos hb]
  | cons c before ih =>
    rw [List.forall_mem_cons] at h
    rw [List.cons_append, firstCloser, h.1, ih h.2]
    rfl

theorem eq_of_firstCloser {s before after : List Char} {bracket : Char}
    (h : firstCloser s = some (before, bracket, after)) :
    s = before ++ bracket :: after ∧ isCloser bracket = true ∧
      ∀ c ∈ before, isCloser c = false := by
  induction s generalizing before with
  | nil => cases h
  | cons c s ih =>
    rw [firstCloser] at h
    cases hc : isCloser c with
    | true =>
      rw [hc, if_pos rfl] at h
      cases h
      simp [hc]
    | false =>
      rw [hc, if_neg (by simp)] at h
      obtain ⟨⟨rest, b, t⟩, hr, he⟩ := Option.map_eq_some_iff.mp h
      cases he
      obtain ⟨rfl, hb, open'⟩ := ih hr
      exact ⟨rfl, hb, List.forall_mem_cons.mpr ⟨hc, open'⟩⟩

theorem countP_eq_zero {s : List Char} (h : ∀ c ∈ s, isCloser c = false) :
    s.countP isCloser = 0 := by
  rw [List.countP_eq_zero]
  intro c hc
  simp [h c hc]

theorem countP_append_closer {before : List Char} (h : ∀ c ∈ before, isCloser c = false)
    {bracket : Char} (hb : isCloser bracket = true) (after : List Char) :
    (before ++ bracket :: after).countP isCloser = after.countP isCloser + 1 := by
  rw [List.countP_append, countP_eq_zero h, List.countP_cons_of_pos hb, Nat.zero_add]

theorem alternatives_ne_nil (n : Nat) (s : List Char) : alternatives n s ≠ [] := by
  cases s with
  | nil => simp [alternatives]
  | cons c s =>
    rw [alternatives]
    split
    · simp
    · split <;> simp

theorem alternatives_cons {n : Nat} {c : Char} (h : ¬(c = '|' ∧ n = 0)) (s : List Char) :
    alternatives n (c :: s) = (alternatives (depthAfter n c) s).modifyHead (c :: ·) := by
  rw [alternatives, if_neg (by simpa using h)]
  cases ha : alternatives (depthAfter n c) s with
  | nil => exact absurd ha (alternatives_ne_nil _ _)
  | cons p ps => rfl

theorem alternatives_bar (s : List Char) : alternatives 0 ('|' :: s) = [] :: alternatives 0 s := rfl

theorem mem_of_mem_alternatives {n : Nat} {s p : List Char} {c : Char} (hp : p ∈ alternatives n s)
    (hc : c ∈ p) : c ∈ s := by
  induction s generalizing n p with
  | nil =>
    rw [alternatives, List.mem_singleton] at hp
    rw [hp] at hc
    cases hc
  | cons d s ih =>
    by_cases hd : d = '|' ∧ n = 0
    · obtain ⟨rfl, rfl⟩ := hd
      rw [alternatives_bar] at hp
      rcases List.mem_cons.mp hp with rfl | hp
      · cases hc
      · exact List.mem_cons_of_mem _ (ih hp hc)
    · rw [alternatives_cons hd] at hp
      cases ha : alternatives (depthAfter n d) s with
      | nil => exact absurd ha (alternatives_ne_nil _ _)
      | cons first rest =>
        rw [ha, List.modifyHead_cons] at hp
        rcases List.mem_cons.mp hp with rfl | hp
        · rcases List.mem_cons.mp hc with rfl | hc
          · exact List.mem_cons_self
          · exact List.mem_cons_of_mem _ (ih (ha ▸ List.mem_cons_self) hc)
        · exact List.mem_cons_of_mem _ (ih (ha ▸ List.mem_cons_of_mem _ hp) hc)

theorem countP_of_mem_rewrites {bracket : Char} {before body after s : List Char}
    (hb : ∀ c ∈ before, isCloser c = false) (hi : ∀ c ∈ body, isCloser c = false)
    (h : s ∈ rewrites bracket before body after) :
    s.countP isCloser = after.countP isCloser := by
  rw [rewrites] at h
  split at h
  · rcases List.mem_cons.mp h with rfl | h
    · rw [List.countP_append, List.countP_append, countP_eq_zero hb, countP_eq_zero hi,
        Nat.zero_add]
    · rw [List.mem_singleton.mp h, List.countP_append, countP_eq_zero hb, Nat.zero_add]
  · obtain ⟨choice, hc, rfl⟩ := List.mem_map.mp h
    have inner : ∀ c ∈ choice, isCloser c = false :=
      fun c h => hi c (mem_of_mem_alternatives hc h)
    rw [List.countP_append, List.countP_append, countP_eq_zero hb, countP_eq_zero inner,
      Nat.zero_add]

section Outcomes

variable {s before body after : List Char} {bracket : Char} {closers : Nat}

theorem unclosed?_eq_none_iff : unclosed? s = none ↔ '[' ∉ s ∧ '(' ∉ s := by
  rw [← Text.cutLast_eq_none_iff, ← Text.cutLast_eq_none_iff, unclosed?]
  cases Text.cutLast '[' s <;> cases Text.cutLast '(' s <;> simp

theorem any_isGroupMark_of_open (h : ∀ c ∈ s, isCloser c = false) :
    s.any isGroupMark = false ↔ unclosed? s = none := by
  rw [unclosed?_eq_none_iff, List.any_eq_false]
  constructor
  · intro unmarked
    exact ⟨fun hc => unmarked _ hc rfl, fun hc => unmarked _ hc rfl⟩
  · rintro ⟨optionals, choices⟩ c hc
    have square : c ≠ '[' := fun e => optionals (e ▸ hc)
    have round : c ≠ '(' := fun e => choices (e ▸ hc)
    simp [isGroupMark, square, round, h c hc]

theorem outcomes_of_open (h : ∀ c ∈ s, isCloser c = false) :
    outcomes closers s = match unclosed? s with
      | some fault => [.error fault]
      | none => [.ok s] := by
  induction closers with
  | zero => rfl
  | succ n ih =>
    rw [outcomes, firstCloser_eq_none_iff.mpr h]
    exact ih

theorem open_append (h : ∀ c ∈ before, isCloser c = false) (hi : ∀ c ∈ body, isCloser c = false)
    (bracket : Char) : ∀ c ∈ before ++ opener bracket :: body, isCloser c = false := by
  intro c hc
  rcases List.mem_append.mp hc with hc | hc
  · exact h c hc
  · rcases List.mem_cons.mp hc with rfl | hc
    · rw [opener]
      split <;> rfl
    · exact hi c hc

theorem outcomes_of_surplus (h : ∀ c ∈ before, isCloser c = false) (hb : isCloser bracket = true)
    (ho : opener bracket ∉ before) :
    outcomes (closers + 1) (before ++ bracket :: after) =
      [.error (.tooManyBrackets before.length bracket)] := by
  rw [outcomes, firstCloser_append h hb]
  simp only [Text.cutLast_eq_none_iff.mpr ho]

theorem outcomes_of_group (h : ∀ c ∈ before, isCloser c = false)
    (hi : ∀ c ∈ body, isCloser c = false) (hb : isCloser bracket = true)
    (ho : opener bracket ∉ body) :
    outcomes (closers + 1) (before ++ opener bracket :: body ++ bracket :: after) =
      (rewrites bracket before body after).flatMap (outcomes closers) := by
  rw [outcomes, firstCloser_append (open_append h hi bracket) hb]
  simp only [Text.cutLast_append_cons ho before]

theorem closer_cases (s : List Char) :
    (∀ c ∈ s, isCloser c = false) ∨
    (∃ before bracket after, s = before ++ bracket :: after ∧ isCloser bracket = true ∧
      (∀ c ∈ before, isCloser c = false) ∧ opener bracket ∉ before) ∨
    ∃ before body bracket after, s = before ++ opener bracket :: body ++ bracket :: after ∧
      isCloser bracket = true ∧ (∀ c ∈ before, isCloser c = false) ∧
      (∀ c ∈ body, isCloser c = false) ∧ opener bracket ∉ body := by
  cases hf : firstCloser s with
  | none => exact .inl (firstCloser_eq_none_iff.mp hf)
  | some found =>
    obtain ⟨before, bracket, after⟩ := found
    obtain ⟨rfl, hb, open'⟩ := eq_of_firstCloser hf
    right
    cases hc : Text.cutLast (opener bracket) before with
    | none => exact .inl ⟨before, bracket, after, rfl, hb, open', Text.cutLast_eq_none_iff.mp hc⟩
    | some cut =>
      obtain ⟨start, body⟩ := cut
      obtain ⟨rfl, absent⟩ := Text.cutLast_eq_some_iff.mp hc
      right
      refine ⟨start, body, bracket, after, rfl, hb, ?_, ?_, absent⟩
      · intro c hc
        exact open' c (List.mem_append_left _ hc)
      · intro c hc
        exact open' c (List.mem_append_right _ (List.mem_cons_of_mem _ hc))

end Outcomes

namespace Openings

def stack (o : Openings) (bracket : Char) : List Nat :=
  if bracket = ']' then o.optionals else o.choices

def pushAll (o : Openings) (place : Nat) : List Char → Openings
  | [] => o
  | c :: s => pushAll (o.push place c) (place + 1) s

section Scan

variable {o : Openings} {place : Nat} {s before after : List Char} {bracket : Char}

theorem head?_stack_push (hb : isCloser bracket = true) (c : Char) :
    ((o.push place c).stack bracket).head? =
      if c = opener bracket then some place else (o.stack bracket).head? := by
  have kind : bracket = ']' ∨ bracket = ')' := by simpa [isCloser] using hb
  rcases kind with rfl | rfl
  · by_cases h : c = '['
    · simp [push, stack, opener, h]
    · by_cases h' : c = '('
      · simp [push, stack, opener, h']
      · simp [push, stack, opener, h, h']
  · by_cases h : c = '('
    · simp [push, stack, opener, h]
    · by_cases h' : c = '['
      · simp [push, stack, opener, h']
      · simp [push, stack, opener, h, h']

theorem head?_stack_pushAll (hb : isCloser bracket = true) (s : List Char) :
    ((o.pushAll place s).stack bracket).head? =
      ((Text.cutLast (opener bracket) s).map fun p => place + p.1.length).or
        (o.stack bracket).head? := by
  induction s generalizing o place with
  | nil => rfl
  | cons c s ih =>
    rw [pushAll, ih, head?_stack_push hb, Text.cutLast]
    cases Text.cutLast (opener bracket) s with
    | some p => simp [Nat.add_assoc, Nat.add_comm 1]
    | none => by_cases hc : c = opener bracket <;> simp [hc]

theorem scan_append (h : ∀ c ∈ before, isCloser c = false) (s : List Char) :
    o.scan place (before ++ s) = (o.pushAll place before).scan (place + before.length) s := by
  induction before generalizing o place with
  | nil => rfl
  | cons c before ih =>
    rw [List.forall_mem_cons] at h
    rw [List.cons_append, scan, h.1, if_neg (by simp), ih h.2, pushAll, List.length_cons,
      Nat.add_assoc, Nat.add_comm 1]

theorem scan_of_open (h : ∀ c ∈ s, isCloser c = false) :
    o.scan place s = (o.pushAll place s, .nothing) := by
  have whole := @scan_append o place s h []
  rwa [List.append_nil] at whole

theorem scan_closer (hb : isCloser bracket = true) (after : List Char) :
    (o.scan place (bracket :: after)).2 = match (o.stack bracket).head? with
      | some start => .group start place bracket
      | none => .surplus place bracket := by
  rw [scan, if_pos hb, pop?, stack]
  by_cases h : bracket = ']'
  · rw [if_pos h, if_pos h]
    cases o.optionals <;> rfl
  · rw [if_neg h, if_neg h]
    cases o.choices <;> rfl

theorem scan_append_closer (h : ∀ c ∈ before, isCloser c = false) (hb : isCloser bracket = true)
    (after : List Char) :
    (empty.scan 0 (before ++ bracket :: after)).2 =
      match Text.cutLast (opener bracket) before with
      | some (start, _) => .group start.length before.length bracket
      | none => .surplus before.length bracket := by
  have nothing : (empty.stack bracket).head? = none := by
    rw [stack]
    split <;> rfl
  rw [scan_append h, scan_closer hb, head?_stack_pushAll hb, nothing]
  cases Text.cutLast (opener bracket) before <;> simp

theorem unclosed?_pushAll (s : List Char) :
    (empty.pushAll 0 s).unclosed? = Pattern.unclosed? s := by
  have optionals : (empty.pushAll 0 s).optionals.head? =
      (Text.cutLast '[' s).map fun p => p.1.length := by
    have top := @head?_stack_pushAll empty 0 _ (rfl : isCloser ']' = true) s
    simpa [stack, empty, opener] using top
  have choices : (empty.pushAll 0 s).choices.head? =
      (Text.cutLast '(' s).map fun p => p.1.length := by
    have top := @head?_stack_pushAll empty 0 _ (rfl : isCloser ')' = true) s
    simpa [stack, empty, opener] using top
  rw [unclosed?, Pattern.unclosed?, optionals, choices]
  cases Text.cutLast '[' s with
  | some p => simp
  | none => cases Text.cutLast '(' s <;> simp

end Scan

end Openings

theorem replacements_eq (before body after : List Char) (bracket : Char) :
    replacements (before ++ opener bracket :: body ++ bracket :: after) before.length
      (before.length + body.length + 1) bracket = rewrites bracket before body after := by
  have front : (before ++ opener bracket :: body ++ bracket :: after).take before.length =
      before := by
    rw [List.append_assoc, List.take_left]
  have inside : ((before ++ opener bracket :: body ++ bracket :: after).take
      (before.length + body.length + 1)).drop (before.length + 1) = body := by
    rw [List.take_left' (by simp [Nat.add_assoc]), List.append_cons]
    exact List.drop_left' (by simp)
  have behind : (before ++ opener bracket :: body ++ bracket :: after).drop
      (before.length + body.length + 1 + 1) = after := by
    rw [List.append_cons _ bracket]
    exact List.drop_left' (by simp [Nat.add_assoc])
  rw [replacements, front, inside, behind]

namespace Expander

theorem each_fst {α : Type} {f : List Char → Expander → List α × Expander}
    {g : List Char → List α} {ss : List (List Char)} (h : ∀ s ∈ ss, ∀ x, (f s x).1 = g s)
    (x : Expander) : (each f ss x).1 = ss.flatMap g := by
  induction ss generalizing x with
  | nil => rfl
  | cons s ss ih =>
    rw [List.forall_mem_cons] at h
    rw [each, List.flatMap_cons, ← h.1 x, ← ih h.2]

theorem outcomes_fst_of_open {s : List Char} (h : ∀ c ∈ s, isCloser c = false)
    (closers depth : Nat) (x : Expander) :
    (outcomes closers depth s x).1 = Pattern.outcomes closers s := by
  have scanned : (x.take depth).1.clear.scan 0 s = (Openings.empty.pushAll 0 s, .nothing) :=
    Openings.scan_of_open h
  rw [outcomes_of_open h]
  unfold outcomes
  cases marked : s.any isGroupMark with
  | false => simp [(any_isGroupMark_of_open h).mp marked]
  | true =>
    simp only [scanned, Openings.unclosed?_pushAll]
    cases left : Pattern.unclosed? s with
    | none =>
      rw [(any_isGroupMark_of_open h).mpr left] at marked
      cases marked
    | some fault => rfl

theorem outcomes_fst {closers : Nat} {s : List Char} (h : s.countP isCloser ≤ closers)
    (depth : Nat) (x : Expander) :
    (outcomes closers depth s x).1 = Pattern.outcomes closers s := by
  induction closers generalizing s depth x with
  | zero =>
    have open' : ∀ c ∈ s, isCloser c = false := by
      intro c hc
      simpa using List.countP_eq_zero.mp (Nat.le_zero.mp h) c hc
    exact outcomes_fst_of_open open' ..
  | succ closers ih =>
    rcases closer_cases s with open' | ⟨before, bracket, after, rfl, hb, open', absent⟩ |
      ⟨before, body, bracket, after, rfl, hb, open', inside, absent⟩
    · exact outcomes_fst_of_open open' ..
    · have marked : (before ++ bracket :: after).any isGroupMark = true := by
        simp [isGroupMark, hb]
      have scanned : ((x.take depth).1.clear.scan 0 (before ++ bracket :: after)).2 =
          .surplus before.length bracket := by
        have found := Openings.scan_append_closer open' hb after
        rwa [Text.cutLast_eq_none_iff.mpr absent] at found
      rw [outcomes_of_surplus open' hb absent]
      unfold outcomes
      simp [marked, scanned]
    · have marked : (before ++ opener bracket :: body ++ bracket :: after).any isGroupMark =
          true := by
        simp [isGroupMark, hb]
      have scanned : ((x.take depth).1.clear.scan 0
          (before ++ opener bracket :: body ++ bracket :: after)).2 =
          .group before.length (before.length + body.length + 1) bracket := by
        have found := Openings.scan_append_closer (open_append open' inside bracket) hb after
        rwa [Text.cutLast_append_cons absent, List.length_append, List.length_cons] at found
      rw [outcomes_of_group open' inside hb absent]
      unfold outcomes
      simp only [marked, scanned, replacements_eq]
      apply each_fst
      intro s hs x
      rw [countP_append_closer (open_append open' inside bracket) hb] at h
      apply ih
      rw [countP_of_mem_rewrites open' inside hs]
      exact Nat.le_of_succ_le_succ h

theorem expand_fst (x : Expander) (s : List Char) : (x.expand s).1 = Pattern.expand s := by
  rw [expand, Pattern.expand, ← outcomes_fst (Nat.le_refl _) 0 x]

end Expander

end ItemLexicon.Pattern
