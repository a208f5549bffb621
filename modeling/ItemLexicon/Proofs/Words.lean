import ItemLexicon.Definition.Noun

namespace ItemLexicon

namespace Text

def blanks : List Nat :=
  [9, 10, 11, 12, 13, 0x20, 0x85, 0xA0, 0x1680, 0x2000, 0x2001, 0x2002, 0x2003, 0x2004, 0x2005,
    0x2006, 0x2007, 0x2008, 0x2009, 0x200A, 0x2028, 0x2029, 0x202F, 0x205F, 0x3000]

theorem mem_blanks_of_isBlank {c : Char} (h : isBlank c = true) : c.toNat ∈ blanks := by
  simp only [isBlank, Bool.or_eq_true, Bool.and_eq_true, decide_eq_true_eq, beq_iff_eq] at h
  simp only [blanks, List.mem_cons, List.not_mem_nil, or_false]
  omega

theorem isBlank_of_isDigit {c : Char} (h : c.isDigit = true) : isBlank c = false := by
  have range : 48 ≤ c.toNat ∧ c.toNat ≤ 57 := by
    simpa [Char.isDigit, UInt32.le_iff_toNat_le] using h
  rw [Bool.eq_false_iff]
  intro blank
  have member := mem_blanks_of_isBlank blank
  simp only [blanks, List.mem_cons, List.not_mem_nil, or_false] at member
  omega

theorem trimEnd_append {t : List Char} (ht : trimEnd t = t) (ne : t ≠ []) (s : List Char) :
    trimEnd (s ++ t) = s ++ t := by
  induction s with
  | nil => exact ht
  | cons c s ih =>
    rw [List.cons_append, trimEnd, ih]
    cases hst : s ++ t with
    | nil => exact absurd (List.append_eq_nil_iff.mp hst).2 ne
    | cons d u => rfl

theorem trimEnd_of_forall {s : List Char} (h : ∀ c ∈ s, isBlank c = false) : trimEnd s = s := by
  induction s with
  | nil => rfl
  | cons c s ih =>
    obtain ⟨hc, hs⟩ := List.forall_mem_cons.mp h
    rw [trimEnd, ih hs]
    cases s with
    | nil => simp [hc]
    | cons d s => rfl

theorem trimEnd_append_cons {c : Char} (h : isBlank c = false) (s t : List Char) :
    trimEnd (s ++ c :: t) = s ++ c :: trimEnd t := by
  induction s with
  | nil =>
    rw [List.nil_append, trimEnd]
    cases trimEnd t <;> simp [h]
  | cons d s ih =>
    rw [List.cons_append, trimEnd, ih]
    cases s <;> rfl

theorem trimEnd_concat_blank {c : Char} (h : isBlank c = true) (s : List Char) :
    trimEnd (s ++ [c]) = trimEnd s := by
  induction s with
  | nil => simp [trimEnd, h]
  | cons d s ih => rw [List.cons_append, trimEnd, trimEnd, ih]

theorem trimStart_cons {c : Char} (h : isBlank c = false) (s : List Char) :
    trimStart (c :: s) = c :: s := by
  simp [trimStart, h]

structure IsTrim (s : List Char) : Prop where
  start : trimStart s = s
  finish : trimEnd s = s

instance (s : List Char) : Decidable (IsTrim s) :=
  decidable_of_iff (trimStart s = s ∧ trimEnd s = s) ⟨fun h => ⟨h.1, h.2⟩, fun h => ⟨h.1, h.2⟩⟩

theorem IsTrim.trim_eq {s : List Char} (h : IsTrim s) : trim s = s := by
  rw [trim, h.start, h.finish]

theorem trimEnd_isPrefix (s : List Char) : trimEnd s <+: s := by
  induction s with
  | nil => exact List.prefix_rfl
  | cons c s ih =>
    rw [trimEnd]
    split
    · split
      · exact List.nil_prefix
      · exact ⟨s, rfl⟩
    · rename_i rest
      rw [rest] at ih
      exact (List.prefix_cons_inj c).mpr ih

theorem length_trimEnd_le (s : List Char) : (trimEnd s).length ≤ s.length :=
  (trimEnd_isPrefix s).length_le

theorem isTrim_iff {s : List Char} : IsTrim s ↔
    (∀ c ∈ s.head?, isBlank c = false) ∧ ∀ c ∈ s.getLast?, isBlank c = false := by
  have start : trimStart s = s ↔ ∀ c ∈ s.head?, isBlank c = false := by
    cases s with
    | nil => simp [trimStart]
    | cons c s =>
      cases hc : isBlank c with
      | false => simp [trimStart_cons hc, hc]
      | true =>
        have shorter := (List.dropWhile_sublist isBlank (l := s)).length_le
        refine iff_of_false (fun kept => ?_) (by simp [hc])
        rw [trimStart, List.dropWhile_cons_of_pos hc] at kept
        rw [kept, List.length_cons] at shorter
        omega
  have finish : trimEnd s = s ↔ ∀ c ∈ s.getLast?, isBlank c = false := by
    rcases List.eq_nil_or_concat s with rfl | ⟨s, c, rfl⟩
    · simp
    · rw [List.concat_eq_append]
      cases hc : isBlank c with
      | false => simp [trimEnd_append_cons hc, hc]
      | true =>
        have shorter := length_trimEnd_le s
        refine iff_of_false (fun kept => ?_) (by simp [hc])
        rw [trimEnd_concat_blank hc] at kept
        rw [kept, List.length_append, List.length_singleton] at shorter
        omega
  exact ⟨fun h => ⟨start.mp h.start, finish.mp h.finish⟩,
    fun h => ⟨start.mpr h.1, finish.mpr h.2⟩⟩

theorem IsTrim.exists_cons {s : List Char} (h : IsTrim s) (ne : s ≠ []) :
    ∃ c t, s = c :: t ∧ isBlank c = false := by
  obtain ⟨c, t, rfl⟩ := List.exists_cons_of_ne_nil ne
  exact ⟨c, t, rfl, (isTrim_iff.mp h).1 c rfl⟩

theorem IsTrim.append {s t : List Char} (hs : IsTrim s) (ne : s ≠ []) (ht : trimEnd t = t)
    (ne' : t ≠ []) : IsTrim (s ++ t) := by
  obtain ⟨c, s, rfl, hc⟩ := hs.exists_cons ne
  exact ⟨trimStart_cons hc _, trimEnd_append ht ne' _⟩

theorem IsTrim.append_cons {s t : List Char} (hs : IsTrim s) {c : Char} (hc : isBlank c = false)
    (ht : trimEnd t = t) : IsTrim (s ++ c :: t) := by
  have finish : trimEnd (c :: t) = c :: t := (trimEnd_append_cons hc [] t).trans (by rw [ht]; rfl)
  cases s with
  | nil => exact ⟨trimStart_cons hc t, finish⟩
  | cons d s => exact hs.append (List.cons_ne_nil d s) finish (List.cons_ne_nil c t)

theorem trimEnd_trimEnd (s : List Char) : trimEnd (trimEnd s) = trimEnd s := by
  induction s with
  | nil => rfl
  | cons c s ih =>
    rw [trimEnd]
    cases rest : trimEnd s with
    | nil => cases hc : isBlank c <;> simp [trimEnd, hc]
    | cons d t =>
      rw [rest] at ih
      show trimEnd (c :: d :: t) = c :: d :: t
      rw [trimEnd, ih]

theorem trim_cons {c : Char} (h : isBlank c = false) (s : List Char) :
    trim (c :: s) = c :: trimEnd s := by
  rw [trim, trimStart_cons h]
  exact trimEnd_append_cons h [] s

theorem trim_cons_blank {c : Char} (h : isBlank c = true) (s : List Char) :
    trim (c :: s) = trim s := by
  rw [trim, trimStart, List.dropWhile_cons_of_pos h]
  rfl

theorem isTrim_trim (s : List Char) : IsTrim (trim s) := by
  induction s with
  | nil => exact ⟨rfl, rfl⟩
  | cons c s ih =>
    cases hc : isBlank c with
    | true => rwa [trim_cons_blank hc]
    | false =>
      rw [trim_cons hc]
      exact ⟨trimStart_cons hc _, (trimEnd_append_cons hc [] _).trans (by rw [trimEnd_trimEnd]; rfl)⟩

theorem trim_eq_nil_iff {s : List Char} : trim s = [] ↔ ∀ c ∈ s, isBlank c = true := by
  induction s with
  | nil => simp
  | cons c s ih =>
    rw [List.forall_mem_cons]
    cases hc : isBlank c with
    | true => rw [trim_cons_blank hc, ih]; simp
    | false => rw [trim_cons hc]; simp

theorem trim_isInfix (s : List Char) : trim s <:+: s :=
  (trimEnd_isPrefix _).isInfix.trans (List.dropWhile_suffix _).isInfix

theorem mem_trimEnd_iff {c : Char} (hc : isBlank c = false) {s : List Char} :
    c ∈ trimEnd s ↔ c ∈ s := by
  refine ⟨fun h => (trimEnd_isPrefix s).subset h, fun h => ?_⟩
  obtain ⟨before, after, rfl⟩ := List.append_of_mem h
  rw [trimEnd_append_cons hc]
  exact List.mem_append_right before List.mem_cons_self

theorem mem_trim_iff {c : Char} (hc : isBlank c = false) {s : List Char} : c ∈ trim s ↔ c ∈ s := by
  induction s with
  | nil => rfl
  | cons d s ih =>
    cases hd : isBlank d with
    | false => rw [trim_cons hd, List.mem_cons, List.mem_cons, mem_trimEnd_iff hc]
    | true =>
      have other : c ≠ d := by
        rintro rfl
        cases hc.symm.trans hd
      rw [trim_cons_blank hd, ih, List.mem_cons, or_iff_right other]

structure IsWord (s : List Char) : Prop where
  ne_nil : s ≠ []
  solid : ∀ c ∈ s, isBlank c = false

theorem IsWord.isTrim {s : List Char} (h : IsWord s) : IsTrim s where
  start := by
    obtain ⟨c, t, rfl⟩ := List.exists_cons_of_ne_nil h.ne_nil
    exact trimStart_cons (h.solid c List.mem_cons_self) t
  finish := trimEnd_of_forall h.solid

theorem trim_append_word_ne_nil (s : List Char) {w : List Char} (hw : IsWord w) :
    trim (s ++ w) ≠ [] := by
  obtain ⟨c, t, rfl⟩ := List.exists_cons_of_ne_nil hw.ne_nil
  rw [Ne, trim_eq_nil_iff]
  intro blank
  have solid := hw.solid c List.mem_cons_self
  rw [blank c (List.mem_append_right s List.mem_cons_self)] at solid
  cases solid

theorem join_append_singleton {ps : List (List Char)} (ne : ps ≠ []) (sep q : List Char) :
    join sep (ps ++ [q]) = join sep ps ++ sep ++ q := by
  induction ps with
  | nil => exact absurd rfl ne
  | cons p ps ih =>
    cases ps with
    | nil => simp [join]
    | cons p' ps =>
      rw [List.cons_append, List.cons_append, join, ← List.cons_append, ih (List.cons_ne_nil _ _),
        join]
      simp

theorem mem_join {c : Char} {sep : List Char} {ps : List (List Char)} (h : c ∈ join sep ps) :
    c ∈ sep ∨ ∃ p ∈ ps, c ∈ p := by
  induction ps with
  | nil => cases h
  | cons p ps ih =>
    cases ps with
    | nil => exact .inr ⟨p, List.mem_cons_self, h⟩
    | cons p' ps =>
      rw [join, List.append_assoc, List.mem_append, List.mem_append] at h
      rcases h with h | h | h
      · exact .inr ⟨p, List.mem_cons_self, h⟩
      · exact .inl h
      · exact (ih h).imp_right fun ⟨q, hq, hc⟩ => ⟨q, List.mem_cons_of_mem _ hq, hc⟩

theorem exists_splitWhere_append (sep : Char → Bool) (s : List Char) : ∃ ps q,
    (∀ w, (∀ c ∈ w, sep c = false) → splitWhere sep (s ++ w) = ps ++ [q ++ w]) ∧
      ∀ p ∈ ps ++ [q], ∀ c ∈ p, sep c = false ∧ c ∈ s := by
  induction s with
  | nil =>
    refine ⟨[], [], fun w hw => ?_, by simp⟩
    induction w with
    | nil => rfl
    | cons c w ih =>
      obtain ⟨hc, hw⟩ := List.forall_mem_cons.mp hw
      have rest := ih hw
      simp only [List.nil_append] at rest ⊢
      rw [splitWhere, rest]
      simp [hc]
  | cons c s ih =>
    obtain ⟨ps, q, split, parts⟩ := ih
    have later : ∀ p ∈ ps ++ [q], ∀ d ∈ p, sep d = false ∧ d ∈ c :: s :=
      fun p hp d hd => ⟨(parts p hp d hd).1, List.mem_cons_of_mem c (parts p hp d hd).2⟩
    cases hc : sep c with
    | true =>
      refine ⟨[] :: ps, q, fun w hw => ?_, ?_⟩
      · rw [List.cons_append, splitWhere, if_pos hc, split w hw]
        rfl
      · exact List.forall_mem_cons.mpr ⟨List.forall_mem_nil _, later⟩
    | false =>
      cases ps with
      | nil =>
        refine ⟨[], c :: q, fun w hw => ?_, ?_⟩
        · rw [List.cons_append, splitWhere, split w hw]
          simp [hc]
        · intro p hp d hd
          rw [List.nil_append, List.mem_singleton] at hp
          subst hp
          rcases List.mem_cons.mp hd with rfl | hd
          · exact ⟨hc, List.mem_cons_self⟩
          · exact later q List.mem_cons_self d hd
      | cons p ps =>
        refine ⟨(c :: p) :: ps, q, fun w hw => ?_, ?_⟩
        · rw [List.cons_append, splitWhere, split w hw]
          simp [hc]
        · obtain ⟨first, rest⟩ := List.forall_mem_cons.mp later
          have extended := List.forall_mem_cons.mpr ⟨⟨hc, List.mem_cons_self⟩, first⟩
          exact List.forall_mem_cons.mpr ⟨extended, rest⟩

theorem exists_words_append (s : List Char) : ∃ ps q,
    words s = ps ++ (if q = [] then [] else [q]) ∧
      (∀ w, IsWord w → words (s ++ w) = ps ++ [q ++ w]) ∧
      (∀ p ∈ ps, IsWord p) ∧ ∀ p ∈ ps ++ [q], ∀ c ∈ p, isBlank c = false ∧ c ∈ s := by
  obtain ⟨ps, q, split, parts⟩ := exists_splitWhere_append isBlank s
  refine ⟨ps.filter (!·.isEmpty), q, ?_, fun w hw => ?_, fun p hp => ?_, fun p hp => ?_⟩
  · have whole := split [] (List.forall_mem_nil _)
    rw [List.append_nil, List.append_nil] at whole
    rw [words, whole, List.filter_append]
    cases q <;> rfl
  · have ne : q ++ w ≠ [] := fun none => hw.ne_nil (List.append_eq_nil_iff.mp none).2
    rw [words, split w hw.solid, List.filter_append]
    simp [hw.ne_nil]
  · obtain ⟨hp, ne⟩ := List.mem_filter.mp hp
    refine ⟨?_, fun c hc => (parts p (List.mem_append_left _ hp) c hc).1⟩
    rintro rfl
    cases ne
  · rcases List.mem_append.mp hp with hp | hp
    · exact parts p (List.mem_append_left _ (List.mem_filter.mp hp).1)
    · exact parts p (List.mem_append_right _ hp)

theorem isWord_of_mem_words {s p : List Char} (h : p ∈ words s) :
    IsWord p ∧ ∀ c ∈ p, c ∈ s := by
  obtain ⟨ps, q, eq, -, wordsOf, parts⟩ := exists_words_append s
  rw [eq] at h
  rcases List.mem_append.mp h with h | h
  · exact ⟨wordsOf p h, fun c hc => (parts p (List.mem_append_left _ h) c hc).2⟩
  · split at h
    · cases h
    · rename_i ne
      rw [List.mem_singleton.mp h]
      have part := parts q (List.mem_append_right _ List.mem_cons_self)
      exact ⟨⟨ne, fun c hc => (part c hc).1⟩, fun c hc => (part c hc).2⟩

theorem words_eq_nil_iff {s : List Char} : words s = [] ↔ ∀ c ∈ s, isBlank c = true := by
  induction s with
  | nil => simp
  | cons c s ih =>
    rw [List.forall_mem_cons]
    cases hc : isBlank c with
    | true => rw [words_cons_of_isBlank hc, ih]; simp
    | false =>
      refine iff_of_false ?_ fun all => Bool.false_ne_true all.1
      rw [words, splitWhere, if_neg (by simp [hc])]
      cases splitWhere isBlank s <;> simp

def spaced (s : List Char) : List Char := join [' '] (words s)

theorem mem_spaced {c : Char} {s : List Char} (h : c ∈ spaced s) : c = ' ' ∨ c ∈ s := by
  rcases mem_join h with h | ⟨p, hp, hc⟩
  · exact .inl (List.mem_singleton.mp h)
  · exact .inr ((isWord_of_mem_words hp).2 c hc)

theorem spaced_cases (s : List Char) :
    (words s = [] ∧ spaced s = []) ∨
      ∃ c t u w, isBlank c = false ∧ IsWord w ∧ spaced s = c :: t ∧ spaced s = u ++ w := by
  rw [spaced]
  have words' : ∀ p ∈ words s, IsWord p := fun p hp => (isWord_of_mem_words hp).1
  generalize words s = ps at *
  rcases List.eq_nil_or_concat ps with rfl | ⟨before, last, rfl⟩
  · exact .inl ⟨rfl, rfl⟩
  · right
    rw [List.concat_eq_append] at words' ⊢
    have first : ∃ c t, isBlank c = false ∧ join [' '] (before ++ [last]) = c :: t := by
      cases hb : before ++ [last] with
      | nil => exact absurd hb (by simp)
      | cons p ps =>
        have word := words' p (by simp [hb])
        cases p with
        | nil => exact absurd rfl word.ne_nil
        | cons c p =>
          have solid := word.solid c List.mem_cons_self
          cases ps with
          | nil => exact ⟨c, p, solid, rfl⟩
          | cons p' ps => exact ⟨c, _, solid, rfl⟩
    obtain ⟨c, t, solid, start⟩ := first
    have word := words' last (by simp)
    cases before with
    | nil => exact ⟨c, t, [], last, solid, word, start, rfl⟩
    | cons p before =>
      exact ⟨c, t, _, last, solid, word, start, join_append_singleton (List.cons_ne_nil _ _) _ _⟩

theorem isTrim_spaced (s : List Char) : IsTrim (spaced s) := by
  rcases spaced_cases s with ⟨-, none⟩ | ⟨c, t, u, w, solid, word, start, finish⟩
  · rw [none]
    exact ⟨rfl, rfl⟩
  · refine ⟨?_, ?_⟩
    · rw [start, trimStart_cons solid]
    · rw [finish, trimEnd_append (trimEnd_of_forall word.solid) word.ne_nil]

theorem isTrim_spaced_append (s : List Char) {w : List Char} (hw : IsWord w) :
    IsTrim (spaced s ++ w) := by
  refine ⟨?_, trimEnd_append (trimEnd_of_forall hw.solid) hw.ne_nil _⟩
  rcases spaced_cases s with ⟨-, none⟩ | ⟨c, t, u, w', solid, word, start, finish⟩
  · rw [none, List.nil_append]
    cases w with
    | nil => rfl
    | cons c w => exact trimStart_cons (hw.solid c List.mem_cons_self) w
  · rw [start, List.cons_append, trimStart_cons solid]

end Text

namespace Noun

theorem tightenMarks_cons {c : Char} {s : List Char} (h : ¬(c = ' ' ∧ s.head? = some '¦')) :
    tightenMarks (c :: s) = c :: tightenMarks s := by
  rw [tightenMarks]
  rintro t rfl rfl
  exact h ⟨rfl, rfl⟩

theorem tightenMarks_of_notMem {s : List Char} (h : '¦' ∉ s) : tightenMarks s = s := by
  induction s with
  | nil => rfl
  | cons c s ih =>
    have rest : '¦' ∉ s := fun hs => h (List.mem_cons_of_mem _ hs)
    rw [tightenMarks_cons, ih rest]
    exact fun both => rest (List.mem_of_head? both.2)

theorem tightenMarks_append {t : List Char} (ht : '¦' ∉ t) {s : List Char} (h : '¦' ∉ s)
    (last : s.getLast? ≠ some ' ') : tightenMarks (s ++ '¦' :: t) = s ++ '¦' :: t := by
  induction s with
  | nil => rw [List.nil_append, tightenMarks_cons (by simp), tightenMarks_of_notMem ht]
  | cons c s ih =>
    have rest : '¦' ∉ s := fun hs => h (List.mem_cons_of_mem _ hs)
    cases s with
    | nil =>
      have notSpace : c ≠ ' ' := fun hc => last (congrArg some hc)
      rw [List.cons_append, tightenMarks_cons fun both => notSpace both.1, ih rest nofun]
    | cons d s =>
      rw [List.getLast?_cons_cons] at last
      rw [List.cons_append, tightenMarks_cons, ih rest last]
      exact fun both => rest (List.mem_of_head? both.2)

theorem tightenMarks_append_space {t : List Char} (ht : '¦' ∉ t) {s : List Char} (h : '¦' ∉ s) :
    tightenMarks (s ++ ' ' :: '¦' :: t) = s ++ '¦' :: t := by
  induction s with
  | nil => rw [List.nil_append, tightenMarks, tightenMarks_of_notMem ht]; rfl
  | cons c s ih =>
    have rest : '¦' ∉ s := fun hs => h (List.mem_cons_of_mem _ hs)
    rw [List.cons_append, tightenMarks_cons, ih rest]
    · rfl
    · rintro ⟨-, head⟩
      cases s with
      | nil => cases head
      | cons d s => exact rest (List.mem_of_head? head)

theorem getLast?_ne_space {w : List Char} (solid : ∀ c ∈ w, Text.isBlank c = false) :
    w.getLast? ≠ some ' ' := by
  intro last
  have blank := solid ' ' (List.mem_of_getLast? last)
  cases blank

theorem normal_append_mark {s t : List Char} (hs : '¦' ∉ s) (ht : '¦' ∉ t)
    (solid : ∀ c ∈ t, Text.isBlank c = false) :
    normal (s ++ '¦' :: t) = Text.join [' '] (Text.words s) ++ '¦' :: t := by
  obtain ⟨ps, q, words, split, wordsOf, parts⟩ := Text.exists_words_append s
  have marked : Text.IsWord ('¦' :: t) :=
    ⟨List.cons_ne_nil _ _, List.forall_mem_cons.mpr ⟨by decide, solid⟩⟩
  have unmarked : ∀ p ∈ ps ++ [q], '¦' ∉ p := fun p hp hc => hs (parts p hp _ hc).2
  have inFront : '¦' ∉ Text.join [' '] ps := by
    intro hc
    rcases Text.mem_join hc with hc | ⟨p, hp, hc⟩
    · cases List.mem_singleton.mp hc
    · exact unmarked p (List.mem_append_left _ hp) hc
  have behind : '¦' ∉ q := unmarked q (List.mem_append_right _ List.mem_cons_self)
  have last : q.getLast? ≠ some ' ' :=
    getLast?_ne_space fun c hc => (parts q (List.mem_append_right _ List.mem_cons_self) c hc).1
  rw [normal, split _ marked, words]
  -- The mark belongs to the last word.  With a blank before it, it is a word of its own, and the
  -- space in front is taken away again.
  by_cases none : ps = []
  · subst none
    have whole : Text.join [' '] (if q = [] then [] else [q]) = q := by
      split
      · rename_i hq
        exact hq.symm
      · rfl
    rw [List.nil_append, List.nil_append, whole]
    exact tightenMarks_append ht behind last
  · rw [Text.join_append_singleton none]
    split
    · rename_i hq
      subst hq
      rw [List.append_nil, List.append_assoc]
      exact tightenMarks_append_space ht inFront
    · rename_i hq
      rw [Text.join_append_singleton none, ← List.append_assoc]
      refine tightenMarks_append ht ?_ ?_
      · simp [inFront, behind]
      · rw [List.getLast?_append]
        cases hl : q.getLast? with
        | none => exact absurd (List.getLast?_eq_none_iff.mp hl) hq
        | some c =>
          rw [hl] at last
          exact last

theorem forms_regular {s : List Char} (hs : '¦' ∉ s) (trimmed : Text.IsTrim s)
    (regular : Text.IsTrim (s ++ ['s'])) : forms (s ++ ['¦', 's']) = (s, s ++ ['s']) := by
  have rest : ['s'].dropWhile (!Text.isBlank ·) = [] := rfl
  rw [forms, show pluralMark = '¦' from rfl, Text.cut_append_cons hs]
  simp only [rest, List.append_nil, trimmed.trim_eq, regular.trim_eq]

end Noun

end ItemLexicon
