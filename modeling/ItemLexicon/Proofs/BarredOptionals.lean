import ItemLexicon.Proofs.Brackets

namespace ItemLexicon.Pattern

def Phrase.hasBar : Phrase → Bool
  | .nil => false
  | .char c rest => c == '|' || rest.hasBar
  | .optional _ rest => rest.hasBar
  | .choice _ rest => rest.hasBar

mutual

/-- An optional part in a choice, however deep, has a bar of its own. -/
def Phrase.hasBarredOptional (inChoice : Bool) : Phrase → Bool
  | .nil => false
  | .char _ rest => rest.hasBarredOptional inChoice
  | .optional body rest =>
    (inChoice && body.hasBar) || body.hasBarredOptional inChoice || rest.hasBarredOptional inChoice
  | .choice options rest => options.hasBarredOptional || rest.hasBarredOptional inChoice

def Options.hasBarredOptional : Options → Bool
  | .one p => p.hasBarredOptional true
  | .or p others => p.hasBarredOptional true || others.hasBarredOptional

end

/-- The bars outside of every choice. -/
def Phrase.bars : Phrase → Nat
  | .nil => 0
  | .char c rest => [c].count '|' + rest.bars
  | .optional body rest => body.bars + rest.bars
  | .choice _ rest => rest.bars

theorem Phrase.hasBar_of_isNested : ∀ p : Phrase, p.isNested true = true → p.hasBar = false
  | .nil, _ => rfl
  | .char c rest, h => by
    rw [isNested, Bool.and_eq_true] at h
    have plain : (c == '|') = false := by
      have text := h.1
      rw [isText, Bool.and_eq_true] at text
      simpa using text.2
    rw [hasBar, plain, rest.hasBar_of_isNested h.2]
    rfl
  | .optional _ rest, h => by
    rw [isNested, Bool.and_eq_true] at h
    exact rest.hasBar_of_isNested h.2
  | .choice _ rest, h => by
    rw [isNested, Bool.and_eq_true] at h
    exact rest.hasBar_of_isNested h.2

mutual

theorem Phrase.isProper_of_isNested : ∀ (p : Phrase) {b inChoice : Bool},
    p.isNested b = true → p.hasBarredOptional inChoice = false →
    (inChoice = true → p.hasBar = false) → p.isProper inChoice = true
  | .nil, _, _, _, _, _ => rfl
  | .char c rest, b, inChoice, h, barred, bar => by
    rw [Phrase.isNested, Bool.and_eq_true] at h
    rw [Phrase.hasBarredOptional] at barred
    rw [Phrase.hasBar, Bool.or_eq_false_iff] at bar
    have text : isText inChoice c = true := by
      have unmarked := isText_false_of h.1
      cases inChoice with
      | false => exact unmarked
      | true => simp_all [isText]
    rw [Phrase.isProper, text, rest.isProper_of_isNested h.2 barred fun deep => (bar deep).2]
    rfl
  | .optional body rest, b, inChoice, h, barred, bar => by
    rw [Phrase.isNested, Bool.and_eq_true] at h
    simp only [Phrase.hasBarredOptional, Bool.or_eq_false_iff, Bool.and_eq_false_imp] at barred
    rw [Phrase.isProper, body.isProper_of_isNested h.1 barred.1.2 barred.1.1,
      rest.isProper_of_isNested h.2 barred.2 bar]
    rfl
  | .choice options rest, b, inChoice, h, barred, bar => by
    rw [Phrase.isNested, Bool.and_eq_true] at h
    rw [Phrase.hasBarredOptional, Bool.or_eq_false_iff] at barred
    rw [Phrase.isProper, options.isProper_of_isNested h.1 barred.1,
      rest.isProper_of_isNested h.2 barred.2 bar]
    rfl

theorem Options.isProper_of_isNested : ∀ os : Options, os.isNested = true →
    os.hasBarredOptional = false → os.isProper = true
  | .one p, h, barred => p.isProper_of_isNested h barred fun _ => p.hasBar_of_isNested h
  | .or p others, h, barred => by
    rw [Options.isNested, Bool.and_eq_true] at h
    rw [Options.hasBarredOptional, Bool.or_eq_false_iff] at barred
    rw [Options.isProper, p.isProper_of_isNested h.1 barred.1 fun _ => p.hasBar_of_isNested h.1,
      others.isProper_of_isNested h.2 barred.2]
    rfl

end

theorem Phrase.count_le_bars : ∀ (p : Phrase) {w : List Char}, w ∈ p.reading →
    w.count '|' ≤ p.bars
  | .nil, w, h => by
    rw [show w = [] from h]
    exact Nat.le_refl 0
  | .char c rest, w, h => by
    obtain ⟨u, rfl, v, hv, rfl⟩ := Language.mem_mul.mp h
    rw [List.count_append, bars]
    exact Nat.add_le_add_left (rest.count_le_bars hv) _
  | .optional body rest, w, h => by
    obtain ⟨u, hu, v, hv, rfl⟩ := Language.mem_mul.mp h
    rw [List.count_append, bars]
    refine Nat.add_le_add ?_ (rest.count_le_bars hv)
    rcases hu with hu | rfl
    · exact body.count_le_bars hu
    · exact Nat.zero_le _
  | .choice options rest, w, h => by
    obtain ⟨u, ⟨t, -, hu⟩, v, hv, rfl⟩ := Language.mem_mul.mp h
    rw [List.count_append, List.count_eq_zero.mpr (Text.notMem_of_mem_splitOn hu), Nat.zero_add]
    exact rest.count_le_bars hv

def Reaches (n : Nat) (l : Language Char) : Prop := ∃ w ∈ l, n ≤ w.count '|'

namespace Reaches

variable {m n : Nat} {k l : Language Char}

theorem zero (h : ∃ w, w ∈ l) : Reaches 0 l := by
  obtain ⟨w, hw⟩ := h
  exact ⟨w, hw, Nat.zero_le _⟩

theorem singleton (c : Char) : Reaches ([c].count '|') {[c]} := ⟨[c], rfl, Nat.le_refl _⟩

theorem add_left (h : Reaches n k) (l : Language Char) : Reaches n (k + l) := by
  obtain ⟨w, hw, le⟩ := h
  exact ⟨w, .inl hw, le⟩

theorem add_right (k : Language Char) (h : Reaches n l) : Reaches n (k + l) := by
  obtain ⟨w, hw, le⟩ := h
  exact ⟨w, .inr hw, le⟩

theorem mul (h : Reaches m k) (h' : Reaches n l) : Reaches (m + n) (k * l) := by
  obtain ⟨v, hv, le⟩ := h
  obtain ⟨w, hw, le'⟩ := h'
  refine ⟨v ++ w, Language.append_mem_mul hv hw, ?_⟩
  rw [List.count_append]
  exact Nat.add_le_add le le'

theorem mul_left (h : Reaches n k) (some' : ∃ w, w ∈ l) : Reaches n (k * l) := h.mul (zero some')

theorem mul_right (some' : ∃ w, w ∈ k) (h : Reaches n l) : Reaches n (k * l) := by
  have both := (zero some').mul h
  rwa [Nat.zero_add] at both

end Reaches

theorem Phrase.reaches_bars (p : Phrase) : Reaches p.bars p.language := by
  cases p with
  | nil => exact .zero ⟨[], rfl⟩
  | char c rest => exact (Reaches.singleton c).mul rest.reaches_bars
  | optional body rest => exact (body.reaches_bars.add_left 1).mul rest.reaches_bars
  | choice options rest => exact .mul_right (exists_mem_options options) rest.reaches_bars

mutual

theorem Phrase.reaches_one : ∀ p : Phrase, p.hasBar = true ∨ p.hasBarredOptional true = true →
    Reaches 1 p.language
  | .nil, h => by
    rcases h with h | h <;> cases h
  | .char c rest, h => by
    rw [Phrase.hasBar, Bool.or_eq_true, beq_iff_eq, or_assoc] at h
    rcases h with rfl | h
    · exact (Reaches.singleton '|').mul_left rest.exists_mem_language
    · exact .mul_right ⟨[c], rfl⟩ (rest.reaches_one h)
  | .optional body rest, h => by
    have inside : (body.hasBar = true ∨ body.hasBarredOptional true = true) ∨
        rest.hasBar = true ∨ rest.hasBarredOptional true = true := by
      simp only [Phrase.hasBar, Phrase.hasBarredOptional, Bool.true_and, Bool.or_eq_true] at h
      tauto
    rcases inside with h | h
    · exact ((body.reaches_one h).add_left 1).mul_left rest.exists_mem_language
    · exact .mul_right ⟨[], .inr rfl⟩ (rest.reaches_one h)
  | .choice options rest, h => by
    rw [Phrase.hasBar, Phrase.hasBarredOptional, Bool.or_eq_true, or_left_comm] at h
    rcases h with h | h
    · exact (options.reaches_one h).mul_left rest.exists_mem_language
    · exact .mul_right (Phrase.exists_mem_options options) (rest.reaches_one h)

theorem Options.reaches_one : ∀ os : Options, os.hasBarredOptional = true →
    Reaches 1 os.language
  | .one p, h => p.reaches_one (.inr h)
  | .or p others, h => by
    rw [Options.hasBarredOptional, Bool.or_eq_true] at h
    rcases h with h | h
    · exact (p.reaches_one (.inr h)).add_left others.language
    · exact (others.reaches_one h).add_right p.language

end

theorem Phrase.reaches_more : ∀ p : Phrase, p.hasBarredOptional false = true →
    Reaches (p.bars + 1) p.language
  | .nil, h => by cases h
  | .char c rest, h => (Reaches.singleton c).mul (rest.reaches_more h)
  | .optional body rest, h => by
    rw [hasBarredOptional, Bool.false_and, Bool.false_or, Bool.or_eq_true] at h
    rcases h with h | h
    · rw [bars, Nat.add_right_comm]
      exact ((body.reaches_more h).add_left 1).mul rest.reaches_bars
    · exact (body.reaches_bars.add_left 1).mul (rest.reaches_more h)
  | .choice options rest, h => by
    rw [hasBarredOptional, Bool.or_eq_true] at h
    rcases h with h | h
    · rw [bars, Nat.add_comm]
      exact (options.reaches_one h).mul rest.reaches_bars
    · exact .mul_right (exists_mem_options options) (rest.reaches_more h)

theorem Phrase.reading_iff_language {p : Phrase} (h : p.isNested false = true) :
    (∀ w, w ∈ p.reading ↔ w ∈ p.language) ↔ p.hasBarredOptional false = false := by
  constructor
  · intro same
    rw [← Bool.not_eq_true]
    intro barred
    obtain ⟨w, hw, more⟩ := p.reaches_more barred
    exact absurd (p.count_le_bars ((same w).mpr hw)) (Nat.not_le.mpr more)
  · intro free w
    have proper : p.isProper false = true := p.isProper_of_isNested h free (by simp)
    have read := @mem_results_text_of_isNested p h (.ok w)
    rw [mem_results_text proper] at read
    simpa using read.symm

/-- A text with nested brackets expands to the words of the reading of its phrase.  These are the
words of the phrase just if no optional part in a choice has a bar of its own. -/
theorem Expander.expand_nested (x : Expander) {s : List Char} (h : IsNested s) :
    (∃ p : Phrase, p.isNested false = true ∧ p.text = s) ∧
    ∀ p : Phrase, p.isNested false = true → p.text = s →
      (x.expand s).1.faults = [] ∧ (x.expand s).1.names.Nodup ∧
      (∀ w, w ∈ (x.expand s).1.names ↔ w ∈ p.reading) ∧
      ((∀ w, w ∈ (x.expand s).1.names ↔ w ∈ p.language) ↔
        p.hasBarredOptional false = false) := by
  refine ⟨h.exists_phrase, ?_⟩
  rintro p nested rfl
  rw [expand_fst]
  have names : ∀ w, w ∈ (Pattern.expand p.text).names ↔ w ∈ p.reading := by
    intro w
    rw [mem_names_expand_iff, Phrase.mem_results_text_of_isNested nested]
    simp
  refine ⟨?_, nodup_eraseDups _, names, ?_⟩
  · rw [List.eq_nil_iff_forall_not_mem]
    intro fault reported
    obtain ⟨w, named⟩ := h.isOk_results (mem_faults_expand_iff.mp reported)
    cases named
  · simp only [names]
    exact Phrase.reading_iff_language nested

theorem Expander.expand_nested_of_barred :
    let s := "([a|b]c|d)".toList
    let p : Phrase := .choice (.or
      (.optional (.char 'a' (.char '|' (.char 'b' .nil))) (.char 'c' .nil))
      (.one (.char 'd' .nil))) .nil
    IsNested s ∧ p.isNested false = true ∧ p.text = s ∧ (new.expand s).1.faults = [] ∧
      (∀ w, w ∈ (new.expand s).1.names ↔ w ∈ p.reading) ∧
      ¬∀ w, w ∈ (new.expand s).1.names ↔ w ∈ p.language := by
  intro s p
  have nested : p.isNested false = true := by decide
  have inside : IsNested s := p.isNested_text nested
  obtain ⟨faults, -, names, language⟩ := (Expander.expand_nested new inside).2 p nested rfl
  refine ⟨inside, nested, rfl, faults, names, fun same => ?_⟩
  have free := language.mp same
  revert free
  decide

theorem bar_escapes_optional :
    let p : Phrase := .choice (.or
      (.optional (.char 'a' (.char '|' (.char 'b' .nil))) (.char 'c' .nil))
      (.one (.char 'd' .nil))) .nil
    p.isNested false = true ∧ p.text = "([a|b]c|d)".toList ∧
      (expand p.text).names.map String.ofList = ["a", "bc", "d", "c"] ∧
      "a|bc".toList ∈ p.language := by
  intro p
  have char {c : Char} {q : Phrase} {w : List Char} (hw : w ∈ q.language) :
      c :: w ∈ (Phrase.char c q).language :=
    show [c] ++ w ∈ ({[c]} * q.language : Language Char) from Language.append_mem_mul rfl hw
  have inside : "a|b".toList ∈ (Phrase.char 'a' (.char '|' (.char 'b' .nil))).language :=
    char (char (char rfl))
  have alternative : "a|b".toList ++ ['c'] ∈
      (Phrase.optional (.char 'a' (.char '|' (.char 'b' .nil))) (.char 'c' .nil)).language :=
    Language.append_mem_mul (.inl inside) (char rfl)
  have word : ("a|b".toList ++ ['c']) ++ [] ∈ p.language :=
    Language.append_mem_mul (.inl alternative) rfl
  exact ⟨by decide, by decide, by decide, word⟩

end ItemLexicon.Pattern
