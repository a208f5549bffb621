import ItemLexicon.Proofs.Words
import ItemLexicon.Text.Lowercase

namespace ItemLexicon.Text

/-- No image of the run is a capital of the other one: the two lie apart or alternate. -/
def CaseRun.avoids (r q : CaseRun) : Bool :=
  (r.image + (r.last - r.first)).blt q.first || q.last.blt r.image ||
    ((r.first.beq r.last || r.step.beq 2) && q.step.beq 2 && !(r.image % 2).beq (q.first % 2))

theorem CaseRun.contains_image {r q : CaseRun} (h : r.avoids q = true) {n : Nat}
    (hn : r.contains n = true) : q.contains (r.image + (n - r.first)) = false := by
  have apart : r.image + (r.last - r.first) < q.first ∨ q.last < r.image ∨
      (r.first = r.last ∨ r.step = 2) ∧ q.step = 2 ∧ r.image % 2 ≠ q.first % 2 := by
    simpa [avoids, or_assoc, and_assoc, ← Bool.not_eq_true] using h
  simp only [contains, Bool.and_eq_true, decide_eq_true_eq, beq_iff_eq] at hn
  rw [Bool.eq_false_iff]
  intro hq
  simp only [contains, Bool.and_eq_true, decide_eq_true_eq, beq_iff_eq] at hq
  rcases apart with before | behind | ⟨single | step, step', parity⟩
  · omega
  · omega
  · rw [step'] at hq
    omega
  · rw [step'] at hq
    rw [step] at hn
    omega

-- Tests on numbers that the kernel computes itself keep this check of all pairs short.
theorem all_avoids : (caseRuns.all fun r => caseRuns.all r.avoids) = true := by decide +kernel

theorem avoids_caseRuns {r q : CaseRun} (hr : r ∈ caseRuns) (hq : q ∈ caseRuns) :
    r.avoids q = true :=
  List.all_eq_true.mp (List.all_eq_true.mp all_avoids r hr) q hq

theorem image_caseRuns : ∀ r ∈ caseRuns,
    r = ⟨8490, 8490, 1, 107⟩ ∨ 128 ≤ r.image ∧
      (r.image + (r.last - r.first) < 304 ∨ 304 < r.image) ∧
      (r.image + (r.last - r.first) < 0xD800 ∨
        0xDFFF < r.image ∧ r.image + (r.last - r.first) < 0x110000) := by decide +kernel

theorem blanks_caseRuns : ∀ r ∈ caseRuns, ∀ n ∈ blanks,
    (n < r.first ∨ r.last < n) ∧ (n < r.image ∨ r.image + (r.last - r.first) < n) := by
  decide +kernel

theorem toNat_ofNat {n : Nat} (h : n.isValidChar) : (Char.ofNat n).toNat = n := by
  rw [Char.ofNat, dif_pos h]
  rfl

theorem toNat_image {r : CaseRun} (hr : r ∈ caseRuns) {c : Char}
    (hc : r.contains c.toNat = true) :
    (Char.ofNat (r.image + (c.toNat - r.first))).toNat = r.image + (c.toNat - r.first) := by
  simp only [CaseRun.contains, Bool.and_eq_true, decide_eq_true_eq] at hc
  apply toNat_ofNat
  rw [Nat.isValidChar]
  rcases image_caseRuns r hr with rfl | ⟨-, -, valid⟩
  · simp only at hc ⊢
    omega
  · omega

theorem isSmall_image {r : CaseRun} (hr : r ∈ caseRuns) {c : Char}
    (hc : r.contains c.toNat = true) :
    let d := Char.ofNat (r.image + (c.toNat - r.first))
    IsSmall d ∧ isBlank d = false ∧ isBlank c = false := by
  intro d
  have range := hc
  simp only [CaseRun.contains, Bool.and_eq_true, decide_eq_true_eq] at range
  have solid : isBlank c = false := by
    rw [Bool.eq_false_iff]
    intro blank
    have apart := (blanks_caseRuns r hr _ (mem_blanks_of_isBlank blank)).1
    omega
  rcases image_caseRuns r hr with rfl | ⟨wide, dotless, valid⟩
  · have kelvin : c.toNat = 8490 := Nat.le_antisymm range.1.2 range.1.1
    have image : d = 'k' := by simp only [d, kelvin]
    rw [image]
    exact ⟨by decide, rfl, solid⟩
  · have number : d.toNat = r.image + (c.toNat - r.first) := by
      apply toNat_ofNat
      rw [Nat.isValidChar]
      omega
    have unmoved : ∀ q ∈ caseRuns, ¬q.contains d.toNat = true := by
      intro q hq
      rw [number, Bool.not_eq_true]
      exact CaseRun.contains_image (avoids_caseRuns hr hq) hc
    refine ⟨⟨?_, ?_⟩, ?_, solid⟩
    -- the capital sigma is a capital of the table, too
    · intro sigma
      exact unmoved ⟨931, 939, 1, 963⟩ (by decide +kernel) (by rw [sigma]; decide)
    · have ascii : ¬d.toNat < 128 := by omega
      have dotted : d ≠ 'İ' := by
        intro same
        have code : d.toNat = 304 := by rw [same]; rfl
        omega
      rw [lowerChar, if_neg ascii, if_neg dotted, List.find?_eq_none.mpr unmoved]
    · rw [Bool.eq_false_iff]
      intro blank
      have apart := (blanks_caseRuns r hr _ (mem_blanks_of_isBlank blank)).2
      omega

theorem of_mem_lowerChar {c d : Char} (h : d ∈ lowerChar c) :
    IsSmall d ∧ isBlank d = isBlank c := by
  rw [lowerChar] at h
  split at h
  · rename_i ascii
    have narrow : ∀ n < 128, IsSmall (Char.ofNat n).toLower ∧
        isBlank (Char.ofNat n).toLower = isBlank (Char.ofNat n) := by decide +kernel
    rw [List.mem_singleton.mp h]
    have both := narrow c.toNat ascii
    rwa [Char.ofNat_toNat] at both
  · rename_i ascii
    split at h
    · rename_i dotted
      subst dotted
      have parts : d = 'i' ∨ d = '\u0307' := by simpa using h
      rcases parts with rfl | rfl
      · exact ⟨by decide, rfl⟩
      · exact ⟨by decide +kernel, by decide⟩
    · split at h
      · rename_i r found
        rw [List.mem_singleton.mp h]
        have capital := List.find?_some found
        obtain ⟨small, solid, solid'⟩ := isSmall_image (List.mem_of_find?_eq_some found) capital
        exact ⟨small, solid.trans solid'.symm⟩
      · rename_i dotted _ absent
        rw [List.mem_singleton.mp h]
        refine ⟨⟨?_, ?_⟩, rfl⟩
        · rintro rfl
          have capital := List.find?_eq_none.mp absent ⟨931, 939, 1, 963⟩ (by decide +kernel)
          exact capital (by decide)
        · rw [lowerChar, if_neg ascii, if_neg dotted, absent]

def caselessSigns : List Char := [':', '@', '¦']

theorem caselessSigns_caseRuns : ∀ r ∈ caseRuns, ∀ n ∈ caselessSigns.map Char.toNat,
    (n < r.first ∨ r.last < n) ∧ (n < r.image ∨ r.image + (r.last - r.first) < n) := by
  decide +kernel

theorem mem_lowerChar_iff {c d : Char} (hc : c ∈ caselessSigns) : c ∈ lowerChar d ↔ c = d := by
  rw [lowerChar]
  split
  · rename_i ascii
    have narrow : ∀ n < 128, (caselessSigns.all fun c =>
        c = (Char.ofNat n).toLower ↔ c = Char.ofNat n) = true := by decide +kernel
    have same := forall_of_all (narrow d.toNat ascii) c hc
    rwa [Char.ofNat_toNat, ← List.mem_singleton] at same
  · split
    · rename_i dotted
      have apart : (caselessSigns.all fun c => c ∈ ['i', '\u0307'] ↔ c = 'İ') = true := by
        decide +kernel
      rw [dotted]
      exact forall_of_all apart c hc
    · split
      · rename_i r found
        have member := List.mem_of_find?_eq_some found
        have capital := List.find?_some found
        have number := toNat_image member capital
        obtain ⟨noCapital, noImage⟩ := caselessSigns_caseRuns r member _ (List.mem_map_of_mem hc)
        simp only [CaseRun.contains, Bool.and_eq_true, decide_eq_true_eq] at capital
        rw [List.mem_singleton]
        constructor
        · intro same
          rw [← same] at number
          omega
        · rintro rfl
          omega
      · exact List.mem_singleton

theorem exists_lowerAfter_cons (before : List Char) (c : Char) (s : List Char) :
    ∃ l, l ≠ [] ∧ (∀ d ∈ l, IsSmall d ∧ isBlank d = isBlank c) ∧
      lowerAfter before (c :: s) = l ++ lowerAfter (c :: before) s := by
  rw [lowerAfter]
  split
  · rename_i sigma
    subst sigma
    refine ⟨_, List.cons_ne_nil _ _, ?_, rfl⟩
    intro d hd
    rw [List.mem_singleton.mp hd]
    split
    · exact ⟨by decide +kernel, by decide⟩
    · exact ⟨by decide +kernel, by decide⟩
  · exact ⟨_, lowerChar_ne_nil c, fun d hd => of_mem_lowerChar hd, rfl⟩

theorem mem_lower_iff {c : Char} (hc : c ∈ caselessSigns) {s : List Char} :
    c ∈ lower s ↔ c ∈ s := by
  rw [lower]
  generalize ([] : List Char) = before
  induction s generalizing before with
  | nil => rfl
  | cons d s ih =>
    rw [lowerAfter, List.mem_append, ih, List.mem_cons]
    apply or_congr_left
    split
    · rename_i sigma
      have apart : (caselessSigns.all fun c => c ≠ 'Σ' ∧ c ≠ 'ς' ∧ c ≠ 'σ') = true := by
        decide +kernel
      obtain ⟨capital, final, small⟩ := forall_of_all apart c hc
      rw [sigma, List.mem_singleton]
      split
      · exact iff_of_false final capital
      · exact iff_of_false small capital
    · exact mem_lowerChar_iff hc

theorem isSmall_of_mem_lower {c : Char} {s : List Char} (h : c ∈ lower s) : IsSmall c := by
  rw [lower] at h
  generalize ([] : List Char) = before at h
  induction s generalizing before with
  | nil => cases h
  | cons d s ih =>
    obtain ⟨l, -, small, eq⟩ := exists_lowerAfter_cons before d s
    rw [eq] at h
    rcases List.mem_append.mp h with h | h
    · exact (small c h).1
    · exact ih _ h

theorem lowercase_lowercase (s : String) : lowercase (lowercase s) = lowercase s := by
  rw [lowercase_eq_self_iff, lowercase, String.toList_ofList]
  exact fun c hc => isSmall_of_mem_lower hc

theorem exists_lowerAfter_concat (before s : List Char) (c : Char) :
    ∃ t l, l ≠ [] ∧ (∀ d ∈ l, isBlank d = isBlank c) ∧ lowerAfter before (s ++ [c]) = t ++ l := by
  induction s generalizing before with
  | nil =>
    obtain ⟨l, ne, small, eq⟩ := exists_lowerAfter_cons before c []
    exact ⟨[], l, ne, fun d hd => (small d hd).2, eq.trans (List.append_nil l)⟩
  | cons d s ih =>
    obtain ⟨first, -, -, eq⟩ := exists_lowerAfter_cons before d (s ++ [c])
    obtain ⟨t, l, ne, blank, rest⟩ := ih (d :: before)
    exact ⟨first ++ t, l, ne, blank, by rw [List.cons_append, eq, rest, List.append_assoc]⟩

theorem isTrim_lower_iff {s : List Char} : IsTrim (lower s) ↔ IsTrim s := by
  rw [isTrim_iff, isTrim_iff]
  apply and_congr
  · cases s with
    | nil => rfl
    | cons c s =>
      obtain ⟨l, ne, small, eq⟩ := exists_lowerAfter_cons [] c s
      obtain ⟨d, l, rfl⟩ := List.exists_cons_of_ne_nil ne
      rw [lower, eq]
      simp [(small d List.mem_cons_self).2]
  · rcases List.eq_nil_or_concat s with rfl | ⟨s, c, rfl⟩
    · rfl
    · rw [List.concat_eq_append]
      obtain ⟨t, l, ne, blank, eq⟩ := exists_lowerAfter_concat [] s c
      rw [lower, eq, List.getLast?_append, List.getLast?_eq_some_getLast ne, List.getLast?_concat]
      simp [blank _ (List.getLast_mem ne)]

end ItemLexicon.Text
