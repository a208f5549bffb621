import ItemLexicon.Proofs.FilePaths
import ItemLexicon.Proofs.PatternLanguage

namespace ItemLexicon.Pattern

/-- Brackets come in pairs of one kind with nested text in between. -/
inductive IsNested : List Char → Prop
  | nil : IsNested []
  | char {c : Char} {s : List Char} (text : isGroupMark c = false) (rest : IsNested s) :
      IsNested (c :: s)
  | group {bracket : Char} {body s : List Char} (hb : isCloser bracket = true)
      (inside : IsNested body) (rest : IsNested s) :
      IsNested (opener bracket :: body ++ bracket :: s)

mutual

/-- All text is plain, and bars are text unless the innermost group around them is a choice. -/
def Phrase.isNested (inChoice : Bool) : Phrase → Bool
  | .nil => true
  | .char c rest => isText inChoice c && rest.isNested inChoice
  | .optional body rest => body.isNested false && rest.isNested inChoice
  | .choice options rest => options.isNested && rest.isNested inChoice

def Options.isNested : Options → Bool
  | .one p => p.isNested true
  | .or p others => p.isNested true && others.isNested

end

def cutAtBars (l : Language Char) : Language Char := {v | ∃ w ∈ l, v ∈ Text.splitOn '|' w}

mutual

/-- The words that an expander comes to.  It cuts what the inside of a choice stands for at every
bar, wherever the bar comes from. -/
def Phrase.reading : Phrase → Language Char
  | .nil => 1
  | .char c rest => {[c]} * rest.reading
  | .optional body rest => (body.reading + 1) * rest.reading
  | .choice options rest => cutAtBars options.reading * rest.reading

def Options.reading : Options → Language Char
  | .one p => p.reading
  | .or p others => p.reading * ({['|']} * others.reading)

end

theorem Options.exists_prepend {f : Phrase → Phrase} {s : List Char}
    (text : ∀ p, (f p).text = s ++ p.text)
    (nested : ∀ p, p.isNested true = true → (f p).isNested true = true) {os : Options}
    (h : os.isNested = true) :
    ∃ os' : Options, os'.isNested = true ∧ os'.text = s ++ os.text := by
  cases os with
  | one p => exact ⟨.one (f p), nested p h, text p⟩
  | or p others =>
    rw [isNested, Bool.and_eq_true] at h
    refine ⟨.or (f p) others, ?_, ?_⟩
    · rw [isNested, nested p h.1, h.2]
      rfl
    · rw [Options.text, Options.text, text, List.append_assoc]

theorem Phrase.exists_options : ∀ q : Phrase, q.isNested false = true →
    ∃ os : Options, os.isNested = true ∧ os.text = q.text
  | .nil, _ => ⟨.one .nil, rfl, rfl⟩
  | .char c rest, h => by
    rw [isNested, Bool.and_eq_true] at h
    obtain ⟨os, nested, text⟩ := rest.exists_options h.2
    by_cases bar : c = '|'
    · refine ⟨.or .nil os, by rw [Options.isNested, nested]; rfl, ?_⟩
      rw [Options.text, text, bar]
      rfl
    · have plain : isText true c = true := by
        have unmarked := h.1
        simp_all [isText]
      rw [Phrase.text, ← text]
      exact Options.exists_prepend (f := .char c) (s := [c]) (fun _ => rfl)
        (fun p hp => by rw [isNested, plain, hp]; rfl) nested
  | .optional body rest, h => by
    rw [isNested, Bool.and_eq_true] at h
    obtain ⟨os, nested, text⟩ := rest.exists_options h.2
    rw [Phrase.text, ← text, List.append_cons]
    exact Options.exists_prepend (f := .optional body)
      (fun p => by rw [Phrase.text, List.append_cons])
      (fun p hp => by rw [isNested, h.1, hp]; rfl) nested
  | .choice options rest, h => by
    rw [isNested, Bool.and_eq_true] at h
    obtain ⟨os, nested, text⟩ := rest.exists_options h.2
    rw [Phrase.text, ← text, List.append_cons]
    exact Options.exists_prepend (f := .choice options)
      (fun p => by rw [Phrase.text, List.append_cons])
      (fun p hp => by rw [isNested, h.1, hp]; rfl) nested

theorem IsNested.exists_phrase {s : List Char} (h : IsNested s) :
    ∃ p : Phrase, p.isNested false = true ∧ p.text = s := by
  induction h with
  | nil => exact ⟨.nil, rfl, rfl⟩
  | @char c s text rest ih =>
    obtain ⟨p, nested, rfl⟩ := ih
    refine ⟨.char c p, ?_, rfl⟩
    rw [Phrase.isNested, nested, isText, text]
    rfl
  | @group bracket body s hb inside rest ih ih' =>
    obtain ⟨q, inner, rfl⟩ := ih
    obtain ⟨p, nested, rfl⟩ := ih'
    have kind : bracket = ']' ∨ bracket = ')' := by simpa [isCloser] using hb
    rcases kind with rfl | rfl
    · refine ⟨.optional q p, ?_, rfl⟩
      rw [Phrase.isNested, inner, nested]
      rfl
    · obtain ⟨os, options, text⟩ := q.exists_options inner
      refine ⟨.choice os p, ?_, ?_⟩
      · rw [Phrase.isNested, options, nested]
        rfl
      · rw [Phrase.text, text]
        rfl

theorem IsNested.append {s t : List Char} (hs : IsNested s) (ht : IsNested t) :
    IsNested (s ++ t) := by
  induction hs with
  | nil => exact ht
  | char text _ ih => exact .char text ih
  | @group bracket body s hb inside _ _ ih =>
    rw [List.append_assoc, List.cons_append]
    exact .group hb inside ih

mutual

theorem Phrase.isNested_text : ∀ (p : Phrase) {inChoice : Bool}, p.isNested inChoice = true →
    IsNested p.text
  | .nil, _, _ => .nil
  | .char c rest, _, h => by
    rw [Phrase.isNested, Bool.and_eq_true] at h
    have text := h.1
    rw [isText, Bool.and_eq_true, Bool.not_eq_true'] at text
    exact .char text.1 (rest.isNested_text h.2)
  | .optional body rest, _, h => by
    rw [Phrase.isNested, Bool.and_eq_true] at h
    exact @IsNested.group ']' _ _ rfl (body.isNested_text h.1) (rest.isNested_text h.2)
  | .choice options rest, _, h => by
    rw [Phrase.isNested, Bool.and_eq_true] at h
    exact @IsNested.group ')' _ _ rfl (options.isNested_text h.1) (rest.isNested_text h.2)

theorem Options.isNested_text : ∀ os : Options, os.isNested = true → IsNested os.text
  | .one p, h => p.isNested_text h
  | .or p others, h => by
    rw [Options.isNested, Bool.and_eq_true] at h
    exact (p.isNested_text h.1).append (.char rfl (others.isNested_text h.2))

end

theorem alternatives_eq_splitOn {s : List Char} (h : ∀ c ∈ s, isGroupMark c = false) :
    alternatives 0 s = Text.splitOn '|' s := by
  induction s with
  | nil => rfl
  | cons c s ih =>
    rw [List.forall_mem_cons] at h
    by_cases bar : c = '|'
    · rw [bar, alternatives_bar, ih h.2]
      rfl
    · have level : depthAfter 0 c = 0 := by
        have unmarked := h.1
        simp only [isGroupMark, Bool.or_eq_false_iff] at unmarked
        simp [depthAfter, unmarked]
      have other : (c == '|') = false := by simpa using bar
      rw [alternatives, level, ih h.2, Text.splitOn, Text.splitOn, Text.splitWhere, other]
      rfl

mutual

theorem Phrase.exists_mem_reading : ∀ p : Phrase, ∃ w, w ∈ p.reading
  | .nil => ⟨[], rfl⟩
  | .char c rest => by
    obtain ⟨w, hw⟩ := rest.exists_mem_reading
    exact ⟨[c] ++ w, Language.append_mem_mul rfl hw⟩
  | .optional body rest => by
    obtain ⟨w, hw⟩ := rest.exists_mem_reading
    exact ⟨[] ++ w, Language.append_mem_mul (.inr rfl) hw⟩
  | .choice options rest => by
    obtain ⟨u, hu⟩ := options.exists_mem_reading
    obtain ⟨v, hv⟩ := List.exists_mem_of_ne_nil _ (Text.splitOn_ne_nil '|' u)
    obtain ⟨w, hw⟩ := rest.exists_mem_reading
    exact ⟨v ++ w, Language.append_mem_mul ⟨u, hu, hv⟩ hw⟩

theorem Options.exists_mem_reading : ∀ os : Options, ∃ w, w ∈ os.reading
  | .one p => p.exists_mem_reading
  | .or p others => by
    obtain ⟨v, hv⟩ := p.exists_mem_reading
    obtain ⟨w, hw⟩ := others.exists_mem_reading
    exact ⟨v ++ (['|'] ++ w), Language.append_mem_mul hv (Language.append_mem_mul rfl hw)⟩

end

theorem isText_false_of {inChoice : Bool} {c : Char} (h : isText inChoice c = true) :
    isText false c = true := by
  rw [isText, Bool.and_eq_true] at h
  rw [isText, h.1]
  rfl

theorem Plain.cutAtBars {l : Language Char} (h : Plain false l) : Plain false (cutAtBars l) := by
  rintro v ⟨w, hw, hv⟩ c hc
  rw [← alternatives_eq_splitOn (h.unmarked w hw)] at hv
  exact h w hw c (mem_of_mem_alternatives hv hc)

mutual

theorem Phrase.plain_reading : ∀ (p : Phrase) {inChoice : Bool}, p.isNested inChoice = true →
    Plain false p.reading
  | .nil, _, _ => .one
  | .char c rest, _, h => by
    rw [Phrase.isNested, Bool.and_eq_true] at h
    exact (Plain.singleton (isText_false_of h.1)).mul (rest.plain_reading h.2)
  | .optional body rest, _, h => by
    rw [Phrase.isNested, Bool.and_eq_true] at h
    exact ((body.plain_reading h.1).add .one).mul (rest.plain_reading h.2)
  | .choice options rest, _, h => by
    rw [Phrase.isNested, Bool.and_eq_true] at h
    exact (options.plain_reading h.1).cutAtBars.mul (rest.plain_reading h.2)

theorem Options.plain_reading : ∀ os : Options, os.isNested = true → Plain false os.reading
  | .one p, h => p.plain_reading h
  | .or p others, h => by
    rw [Options.isNested, Bool.and_eq_true] at h
    exact (p.plain_reading h.1).mul ((Plain.singleton rfl).mul (others.plain_reading h.2))

end

mutual

theorem Phrase.standsFor_reading : ∀ (p : Phrase) {inChoice : Bool},
    p.isNested inChoice = true → StandsFor p.text p.reading
  | .nil, _, _ => .nil
  | .char c rest, _, h => by
    rw [Phrase.isNested, Bool.and_eq_true] at h
    exact (StandsFor.singleton c).append (rest.standsFor_reading h.2)
      (Plain.singleton h.1).open'
  | .optional body rest, _, h => by
    rw [Phrase.isNested, Bool.and_eq_true] at h
    have plain := body.plain_reading h.1
    have group := (body.standsFor_reading h.1).optional plain.unmarked body.exists_mem_reading
    rw [Phrase.text, Phrase.reading, List.append_cons]
    exact group.append (rest.standsFor_reading h.2) (plain.add .one).open'
  | .choice options rest, _, h => by
    rw [Phrase.isNested, Bool.and_eq_true] at h
    have plain := options.plain_reading h.1
    have cut : ∀ v, v ∈ cutAtBars options.reading ↔
        ∃ w ∈ options.reading, v ∈ alternatives 0 w := by
      intro v
      apply exists_congr
      intro w
      apply and_congr_right
      intro hw
      rw [alternatives_eq_splitOn (plain.unmarked w hw)]
    have group := (options.standsFor_reading h.1).choice plain.unmarked cut
    rw [Phrase.text, Phrase.reading, List.append_cons]
    exact group.append (rest.standsFor_reading h.2) plain.cutAtBars.open'

theorem Options.standsFor_reading : ∀ os : Options, os.isNested = true →
    StandsFor os.text os.reading
  | .one p, h => p.standsFor_reading h
  | .or p others, h => by
    rw [Options.isNested, Bool.and_eq_true] at h
    have bar : StandsFor ('|' :: others.text) ({['|']} * others.reading) :=
      (StandsFor.singleton '|').append (others.standsFor_reading h.2)
        (@Plain.singleton false '|' rfl).open'
    exact (p.standsFor_reading h.1).append bar (p.plain_reading h.1).open'

end

theorem Phrase.mem_results_text_of_isNested {p : Phrase} (h : p.isNested false = true)
    {o : Except Fault (List Char)} : o ∈ results p.text ↔ ∃ w ∈ p.reading, o = .ok w :=
  (p.standsFor_reading h).mem_results (p.plain_reading h).unmarked

end ItemLexicon.Pattern
