namespace ItemLexicon.Text

def cut (sep : Char) : List Char → Option (List Char × List Char)
  | [] => none
  | c :: s => if c = sep then some ([], s) else (cut sep s).map fun p => (c :: p.1, p.2)

def cutLast (sep : Char) : List Char → Option (List Char × List Char)
  | [] => none
  | c :: s =>
    match cutLast sep s with
    | some p => some (c :: p.1, p.2)
    | none => if c = sep then some ([], s) else none

def splitWhere (sep : Char → Bool) : List Char → List (List Char)
  | [] => [[]]
  | c :: s =>
    if sep c then [] :: splitWhere sep s
    else match splitWhere sep s with
      | [] => [[c]]
      | p :: ps => (c :: p) :: ps

def splitOn (sep : Char) (s : List Char) : List (List Char) := splitWhere (· == sep) s

def dropPrefix? : List Char → List Char → Option (List Char)
  | [], s => some s
  | _ :: _, [] => none
  | w :: ws, c :: s => if w = c then dropPrefix? ws s else none

def dropSuffix? (w s : List Char) : Option (List Char) :=
  (dropPrefix? w.reverse s.reverse).map List.reverse

/-- The two sides of every occurrence of a word, overlapping ones included, leftmost first. -/
def cutsAt (w : List Char) : List Char → List (List Char × List Char)
  | [] => []
  | c :: s =>
    let later := (cutsAt w s).map fun p => (c :: p.1, p.2)
    match dropPrefix? w (c :: s) with
    | some rest => ([], rest) :: later
    | none => later

def cutAt (w s : List Char) : Option (List Char × List Char) := (cutsAt w s).head?

def splitAtAfter (w : List Char) : Nat → List Char → List (List Char)
  | _, [] => [[]]
  | skip + 1, _ :: s => splitAtAfter w skip s
  | 0, c :: s =>
    if w.isPrefixOf (c :: s) then [] :: splitAtAfter w (w.length - 1) s
    else match splitAtAfter w 0 s with
      | [] => [[c]]
      | p :: ps => (c :: p) :: ps

def splitAt (w s : List Char) : List (List Char) := splitAtAfter w 0 s

def join (sep : List Char) : List (List Char) → List Char
  | [] => []
  | [p] => p
  | p :: q :: ps => p ++ sep ++ join sep (q :: ps)

def byteLength : List Char → Nat
  | [] => 0
  | c :: s => c.utf8Size + byteLength s

/-- The longest part from the start that has at most the given number of bytes. -/
def takeBytes : Nat → List Char → List Char
  | _, [] => []
  | n, c :: s => if c.utf8Size ≤ n then c :: takeBytes (n - c.utf8Size) s else []

def dropBytes : Nat → List Char → List Char
  | _, [] => []
  | n, c :: s => if c.utf8Size ≤ n then dropBytes (n - c.utf8Size) s else c :: s

@[simp] theorem byteLength_append (s t : List Char) :
    byteLength (s ++ t) = byteLength s + byteLength t := by
  induction s with
  | nil => simp [byteLength]
  | cons c s ih => simp [byteLength, ih, Nat.add_assoc]

theorem takeBytes_append (s t : List Char) : takeBytes (byteLength s) (s ++ t) = s := by
  induction s with
  | nil =>
    cases t with
    | nil => rfl
    | cons c t => exact if_neg (Nat.not_le.mpr (Char.utf8Size_pos c))
  | cons c s ih => simp [takeBytes, byteLength, ih]

theorem dropBytes_append (n : Nat) (s t : List Char) :
    dropBytes (byteLength s + n) (s ++ t) = dropBytes n t := by
  induction s with
  | nil => rw [byteLength, Nat.zero_add, List.nil_append]
  | cons c s ih =>
    rw [byteLength, List.cons_append, dropBytes, if_pos (by omega), Nat.add_assoc,
      Nat.add_sub_cancel_left, ih]

theorem dropBytes_zero (s : List Char) : dropBytes 0 s = s := by
  cases s with
  | nil => rfl
  | cons c s => rw [dropBytes, if_neg (Nat.not_le.mpr (Char.utf8Size_pos c))]

theorem cut_append_cons {sep : Char} {s : List Char} (h : sep ∉ s) (t : List Char) :
    cut sep (s ++ sep :: t) = some (s, t) := by
  induction s with
  | nil => simp [cut]
  | cons c s ih =>
    rw [List.mem_cons, not_or] at h
    obtain ⟨hc, hs⟩ := h
    rw [List.cons_append, cut, if_neg (Ne.symm hc), ih hs]
    rfl

theorem cut_eq_none_iff {sep : Char} {s : List Char} : cut sep s = none ↔ sep ∉ s := by
  induction s with
  | nil => simp [cut]
  | cons c s ih =>
    rw [cut]
    by_cases h : c = sep
    · simp [h]
    · simp [h, Ne.symm h, ih]

theorem cut_of_notMem {sep : Char} {s : List Char} (h : sep ∉ s) : cut sep s = none :=
  cut_eq_none_iff.mpr h

theorem cut_eq_some_iff {sep : Char} {s t u : List Char} :
    cut sep s = some (t, u) ↔ s = t ++ sep :: u ∧ sep ∉ t := by
  constructor
  · intro h
    induction s generalizing t with
    | nil => cases h
    | cons c s ih =>
      rw [cut] at h
      split at h
      · rename_i same
        cases h
        rw [same]
        exact ⟨rfl, List.not_mem_nil⟩
      · rename_i other
        obtain ⟨⟨t', u'⟩, found, same⟩ := Option.map_eq_some_iff.mp h
        cases same
        obtain ⟨rfl, absent⟩ := ih found
        refine ⟨rfl, fun member => ?_⟩
        rcases List.mem_cons.mp member with rfl | member
        · exact other rfl
        · exact absent member
  · rintro ⟨rfl, h⟩
    exact cut_append_cons h u

theorem cutLast_eq_none_iff {sep : Char} {s : List Char} : cutLast sep s = none ↔ sep ∉ s := by
  induction s with
  | nil => simp [cutLast]
  | cons c s ih =>
    rw [cutLast]
    cases hs : cutLast sep s with
    | none =>
      have rest : sep ∉ s := ih.mp hs
      by_cases h : c = sep
      · simp [h]
      · simp [h, Ne.symm h, rest]
    | some p =>
      have rest : sep ∈ s := by
        apply Decidable.byContradiction
        intro absent
        rw [ih.mpr absent] at hs
        cases hs
      simp [rest]

theorem cutLast_append_cons {sep : Char} {t : List Char} (h : sep ∉ t) (s : List Char) :
    cutLast sep (s ++ sep :: t) = some (s, t) := by
  induction s with
  | nil => simp [cutLast, cutLast_eq_none_iff.mpr h]
  | cons c s ih => rw [List.cons_append, cutLast, ih]

theorem cutLast_eq_some_iff {sep : Char} {s t u : List Char} :
    cutLast sep s = some (t, u) ↔ s = t ++ sep :: u ∧ sep ∉ u := by
  constructor
  · intro h
    induction s generalizing t with
    | nil => cases h
    | cons c s ih =>
      rw [cutLast] at h
      cases hs : cutLast sep s with
      | none =>
        rw [hs] at h
        by_cases hc : c = sep
        · simp only [hc, if_true, Option.some.injEq, Prod.mk.injEq] at h
          rw [← h.1, ← h.2, hc]
          exact ⟨rfl, cutLast_eq_none_iff.mp hs⟩
        · simp [hc] at h
      | some p =>
        obtain ⟨before, after⟩ := p
        rw [hs] at h
        simp only [Option.some.injEq, Prod.mk.injEq] at h
        obtain ⟨rfl, rfl⟩ := h
        obtain ⟨rfl, absent⟩ := ih hs
        exact ⟨rfl, absent⟩
  · rintro ⟨rfl, h⟩
    exact cutLast_append_cons h t

theorem forall_of_all {p : Char → Prop} [DecidablePred p] {s : List Char}
    (h : s.all fun c => decide (p c)) : ∀ c ∈ s, p c := by
  simpa using h

theorem dropPrefix?_append (w s : List Char) : dropPrefix? w (w ++ s) = some s := by
  induction w with
  | nil => rfl
  | cons c w ih => simp [dropPrefix?, ih]

theorem eq_append_of_dropPrefix? {w s t : List Char} (h : dropPrefix? w s = some t) :
    s = w ++ t := by
  induction w generalizing s with
  | nil => exact Option.some.inj h
  | cons c w ih =>
    cases s with
    | nil => cases h
    | cons d s =>
      rw [dropPrefix?] at h
      split at h
      · rename_i same
        rw [same, List.cons_append, ← ih h]
      · cases h

theorem dropSuffix?_eq_some_iff {w s t : List Char} : dropSuffix? w s = some t ↔ s = t ++ w := by
  constructor
  · intro h
    obtain ⟨r, hr, rfl⟩ := Option.map_eq_some_iff.mp h
    have reversed := congrArg List.reverse (eq_append_of_dropPrefix? hr)
    rwa [List.reverse_reverse, List.reverse_append, List.reverse_reverse] at reversed
  · rintro rfl
    rw [dropSuffix?, List.reverse_append, dropPrefix?_append, Option.map_some, List.reverse_reverse]

end ItemLexicon.Text
