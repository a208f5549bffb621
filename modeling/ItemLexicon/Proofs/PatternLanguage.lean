import ItemLexicon.Proofs.PatternRewriting
import Mathlib.Computability.Language

namespace ItemLexicon.Pattern

mutual

inductive Phrase
  | nil
  | char (c : Char) (rest : Phrase)
  | optional (body rest : Phrase)
  | choice (options : Options) (rest : Phrase)

inductive Options
  | one (p : Phrase)
  | or (p : Phrase) (others : Options)

end

mutual

def Phrase.text : Phrase → List Char
  | .nil => []
  | .char c rest => c :: rest.text
  | .optional body rest => '[' :: body.text ++ ']' :: rest.text
  | .choice options rest => '(' :: options.text ++ ')' :: rest.text

def Options.text : Options → List Char
  | .one p => p.text
  | .or p others => p.text ++ '|' :: others.text

end

mutual

/-- An optional part may be left out, and a choice stands for any of its alternatives. -/
def Phrase.language : Phrase → Language Char
  | .nil => 1
  | .char c rest => {[c]} * rest.language
  | .optional body rest => (body.language + 1) * rest.language
  | .choice options rest => options.language * rest.language

def Options.language : Options → Language Char
  | .one p => p.language
  | .or p others => p.language + others.language

end

def isText (inChoice : Bool) (c : Char) : Bool := !isGroupMark c && !(inChoice && c == '|')

mutual

/-- All text is plain, and bars are text only outside of every choice. -/
def Phrase.isProper (inChoice : Bool) : Phrase → Bool
  | .nil => true
  | .char c rest => isText inChoice c && rest.isProper inChoice
  | .optional body rest => body.isProper inChoice && rest.isProper inChoice
  | .choice options rest => options.isProper && rest.isProper inChoice

def Options.isProper : Options → Bool
  | .one p => p.isProper true
  | .or p others => p.isProper true && others.isProper

end

def results (s : List Char) : List (Except Fault (List Char)) := outcomes (s.countP isCloser) s

theorem results_of_plain {s : List Char} (h : ∀ c ∈ s, isGroupMark c = false) :
    results s = [.ok s] := by
  have open' : ∀ c ∈ s, isCloser c = false := by
    intro c hc
    have unmarked := h c hc
    simp_all [isGroupMark]
  have left : unclosed? s = none := by
    rw [← any_isGroupMark_of_open open', List.any_eq_false]
    intro c hc
    simp [h c hc]
  rw [results, outcomes_of_open open', left]

theorem results_of_first_group {before body : List Char} {bracket : Char}
    (h : ∀ c ∈ before, isCloser c = false) (hi : ∀ c ∈ body, isCloser c = false)
    (hb : isCloser bracket = true) (ho : opener bracket ∉ body) (after : List Char) :
    results (before ++ opener bracket :: body ++ bracket :: after) =
      (rewrites bracket before body after).flatMap results := by
  rw [results, countP_append_closer (open_append h hi bracket) hb, outcomes_of_group h hi hb ho]
  apply List.flatMap_congr
  intro s hs
  rw [results, countP_of_mem_rewrites h hi hs]

theorem results_of_group {before body : List Char} {bracket : Char}
    (h : ∀ c ∈ before, isCloser c = false) (hi : ∀ c ∈ body, isGroupMark c = false)
    (hb : isCloser bracket = true) (after : List Char) :
    results (before ++ opener bracket :: body ++ bracket :: after) =
      (rewrites bracket before body after).flatMap results := by
  have inside : ∀ c ∈ body, isCloser c = false := by
    intro c hc
    have unmarked := hi c hc
    simp_all [isGroupMark]
  have absent : opener bracket ∉ body := by
    intro hc
    have unmarked := hi _ hc
    rw [opener] at unmarked
    split at unmarked <;> cases unmarked
  exact results_of_first_group h inside hb absent after

/-- In any place that no closing bracket precedes, the text expands to what the words of the
language expand to there. -/
def StandsFor (s : List Char) (l : Language Char) : Prop :=
  ∀ before after o, (∀ c ∈ before, isCloser c = false) →
    (o ∈ results (before ++ s ++ after) ↔ ∃ w ∈ l, o ∈ results (before ++ w ++ after))

namespace StandsFor

theorem nil : StandsFor [] 1 := by
  intro before after o _
  simp

theorem singleton (c : Char) : StandsFor [c] {[c]} := by
  intro before after o _
  constructor
  · intro h
    exact ⟨[c], rfl, h⟩
  · rintro ⟨w, rfl, h⟩
    exact h

theorem append {s t : List Char} {l m : Language Char} (hs : StandsFor s l) (ht : StandsFor t m)
    (hl : ∀ w ∈ l, ∀ c ∈ w, isCloser c = false) : StandsFor (s ++ t) (l * m) := by
  intro before after o h
  calc
    o ∈ results (before ++ (s ++ t) ++ after)
      ↔ o ∈ results (before ++ s ++ (t ++ after)) := by simp only [List.append_assoc]
    _ ↔ ∃ u ∈ l, o ∈ results (before ++ u ++ t ++ after) := by
      rw [hs before (t ++ after) o h]
      simp only [List.append_assoc]
    _ ↔ ∃ u ∈ l, ∃ v ∈ m, o ∈ results (before ++ u ++ v ++ after) := by
      apply exists_congr
      intro u
      apply and_congr_right
      intro hu
      apply ht
      intro c hc
      rcases List.mem_append.mp hc with hc | hc
      · exact h c hc
      · exact hl u hu c hc
    _ ↔ ∃ w ∈ l * m, o ∈ results (before ++ w ++ after) := by
      constructor
      · rintro ⟨u, hu, v, hv, ho⟩
        refine ⟨u ++ v, Language.append_mem_mul hu hv, ?_⟩
        rwa [← List.append_assoc]
      · rintro ⟨w, hw, ho⟩
        obtain ⟨u, hu, v, hv, rfl⟩ := Language.mem_mul.mp hw
        refine ⟨u, hu, v, hv, ?_⟩
        rwa [List.append_assoc before]

theorem group {s : List Char} {l m : Language Char} {bracket : Char} (hs : StandsFor s l)
    (hb : isCloser bracket = true) (hl : ∀ w ∈ l, ∀ c ∈ w, isGroupMark c = false)
    (hm : ∀ before after t, (∃ w ∈ l, t ∈ rewrites bracket before w after) ↔
      ∃ w ∈ m, t = before ++ w ++ after) :
    StandsFor (opener bracket :: s ++ [bracket]) m := by
  intro before after o h
  have inside : ∀ c ∈ before ++ [opener bracket], isCloser c = false :=
    open_append h (by simp) bracket
  calc
    o ∈ results (before ++ (opener bracket :: s ++ [bracket]) ++ after)
      ↔ o ∈ results (before ++ [opener bracket] ++ s ++ (bracket :: after)) := by simp
    _ ↔ ∃ w ∈ l, o ∈ results (before ++ opener bracket :: w ++ bracket :: after) := by
      rw [hs _ (bracket :: after) o inside]
      simp
    _ ↔ ∃ w ∈ l, ∃ t ∈ rewrites bracket before w after, o ∈ results t := by
      apply exists_congr
      intro w
      apply and_congr_right
      intro hw
      rw [results_of_group h (hl w hw) hb, List.mem_flatMap]
    _ ↔ ∃ t, (∃ w ∈ l, t ∈ rewrites bracket before w after) ∧ o ∈ results t := by
      constructor
      · rintro ⟨w, hw, t, ht, ho⟩
        exact ⟨t, ⟨w, hw, ht⟩, ho⟩
      · rintro ⟨t, ⟨w, hw, ht⟩, ho⟩
        exact ⟨w, hw, t, ht, ho⟩
    _ ↔ ∃ w ∈ m, o ∈ results (before ++ w ++ after) := by
      simp only [hm]
      constructor
      · rintro ⟨t, ⟨w, hw, rfl⟩, ho⟩
        exact ⟨w, hw, ho⟩
      · rintro ⟨w, hw, ho⟩
        exact ⟨_, ⟨w, hw, rfl⟩, ho⟩

theorem optional {s : List Char} {l : Language Char} (hs : StandsFor s l)
    (hl : ∀ w ∈ l, ∀ c ∈ w, isGroupMark c = false) (some' : ∃ w, w ∈ l) :
    StandsFor ('[' :: s ++ [']']) (l + 1) := by
  apply @group s l (l + 1) ']' hs rfl hl
  intro before after t
  have rewritten : ∀ w, t ∈ rewrites ']' before w after ↔
      t = before ++ w ++ after ∨ t = before ++ [] ++ after := by
    intro w
    simp [rewrites]
  simp only [rewritten, Language.mem_add, Language.mem_one]
  constructor
  · rintro ⟨w, hw, ht | ht⟩
    · exact ⟨w, .inl hw, ht⟩
    · exact ⟨[], .inr rfl, ht⟩
  · rintro ⟨w, hw | rfl, ht⟩
    · exact ⟨w, hw, .inl ht⟩
    · obtain ⟨v, hv⟩ := some'
      exact ⟨v, hv, .inr ht⟩

theorem choice {s : List Char} {l m : Language Char} (hs : StandsFor s l)
    (hl : ∀ w ∈ l, ∀ c ∈ w, isGroupMark c = false)
    (hm : ∀ v, v ∈ m ↔ ∃ w ∈ l, v ∈ alternatives 0 w) : StandsFor ('(' :: s ++ [')']) m := by
  apply @group s l m ')' hs rfl hl
  intro before after t
  have rewritten : ∀ w, t ∈ rewrites ')' before w after ↔
      ∃ v ∈ alternatives 0 w, before ++ v ++ after = t := by
    intro w
    simp [rewrites]
  simp only [rewritten, hm]
  constructor
  · rintro ⟨w, hw, v, hv, rfl⟩
    exact ⟨v, ⟨w, hw, hv⟩, rfl⟩
  · rintro ⟨v, ⟨w, hw, hv⟩, rfl⟩
    exact ⟨w, hw, v, hv, rfl⟩

theorem mem_results {s : List Char} {l : Language Char} (hs : StandsFor s l)
    (hl : ∀ w ∈ l, ∀ c ∈ w, isGroupMark c = false) {o : Except Fault (List Char)} :
    o ∈ results s ↔ ∃ w ∈ l, o = .ok w := by
  have whole := hs [] [] o (by simp)
  simp only [List.nil_append, List.append_nil] at whole
  rw [whole]
  apply exists_congr
  intro w
  apply and_congr_right
  intro hw
  rw [results_of_plain (hl w hw), List.mem_singleton]

end StandsFor

theorem alternatives_append {s : List Char} (h : ∀ c ∈ s, isText true c = true) (t : List Char) :
    alternatives 0 (s ++ t) = (alternatives 0 t).modifyHead (s ++ ·) := by
  induction s with
  | nil =>
    cases ha : alternatives 0 t with
    | nil => exact absurd ha (alternatives_ne_nil _ _)
    | cons p ps => simp [ha]
  | cons c s ih =>
    rw [List.forall_mem_cons] at h
    have plain := h.1
    have bar : ¬(c = '|' ∧ 0 = 0) := by
      rintro ⟨rfl, -⟩
      cases plain
    have level : depthAfter 0 c = 0 := by
      simp [isText, isGroupMark] at plain
      simp [depthAfter, plain]
    rw [List.cons_append, alternatives_cons bar, level, ih h.2, List.modifyHead_modifyHead]
    rfl

namespace Phrase

mutual

theorem exists_mem_language : ∀ p : Phrase, ∃ w, w ∈ p.language
  | .nil => ⟨[], rfl⟩
  | .char c rest => by
    obtain ⟨w, hw⟩ := rest.exists_mem_language
    exact ⟨[c] ++ w, Language.append_mem_mul rfl hw⟩
  | .optional body rest => by
    obtain ⟨w, hw⟩ := rest.exists_mem_language
    exact ⟨[] ++ w, Language.append_mem_mul (.inr rfl) hw⟩
  | .choice options rest => by
    obtain ⟨v, hv⟩ := exists_mem_options options
    obtain ⟨w, hw⟩ := rest.exists_mem_language
    exact ⟨v ++ w, Language.append_mem_mul hv hw⟩

theorem exists_mem_options : ∀ os : Options, ∃ w, w ∈ os.language
  | .one p => p.exists_mem_language
  | .or p _ => by
    obtain ⟨w, hw⟩ := p.exists_mem_language
    exact ⟨w, .inl hw⟩

end

end Phrase

def Plain (inChoice : Bool) (l : Language Char) : Prop := ∀ w ∈ l, ∀ c ∈ w, isText inChoice c = true

namespace Plain

variable {inChoice : Bool} {l m : Language Char}

theorem one : Plain inChoice 1 := by
  rintro w rfl c hc
  cases hc

theorem singleton {c : Char} (h : isText inChoice c = true) : Plain inChoice {[c]} := by
  rintro w rfl d hd
  rw [List.mem_singleton.mp hd]
  exact h

theorem add (hl : Plain inChoice l) (hm : Plain inChoice m) : Plain inChoice (l + m) := by
  rintro w (hw | hw)
  · exact hl w hw
  · exact hm w hw

theorem mul (hl : Plain inChoice l) (hm : Plain inChoice m) : Plain inChoice (l * m) := by
  intro w hw c hc
  obtain ⟨u, hu, v, hv, rfl⟩ := Language.mem_mul.mp hw
  rcases List.mem_append.mp hc with hc | hc
  · exact hl u hu c hc
  · exact hm v hv c hc

theorem relax (h : Plain true l) : Plain inChoice l := by
  intro w hw c hc
  have text := h w hw c hc
  cases inChoice with
  | true => exact text
  | false =>
    simp [isText] at text ⊢
    exact text.1

theorem unmarked (h : Plain inChoice l) : ∀ w ∈ l, ∀ c ∈ w, isGroupMark c = false := by
  intro w hw c hc
  have text := h w hw c hc
  simp [isText] at text
  exact text.1

theorem open' (h : Plain inChoice l) : ∀ w ∈ l, ∀ c ∈ w, isCloser c = false := by
  intro w hw c hc
  have unmarked := h.unmarked w hw c hc
  simp_all [isGroupMark]

end Plain

mutual

theorem Phrase.plain : ∀ (p : Phrase) {inChoice : Bool}, p.isProper inChoice = true →
    Plain inChoice p.language
  | .nil, _, _ => .one
  | .char c rest, _, h => by
    rw [Phrase.isProper, Bool.and_eq_true] at h
    exact (Plain.singleton h.1).mul (rest.plain h.2)
  | .optional body rest, _, h => by
    rw [Phrase.isProper, Bool.and_eq_true] at h
    exact ((body.plain h.1).add .one).mul (rest.plain h.2)
  | .choice options rest, _, h => by
    rw [Phrase.isProper, Bool.and_eq_true] at h
    exact (options.plain h.1).relax.mul (rest.plain h.2)

theorem Options.plain : ∀ os : Options, os.isProper = true → Plain true os.language
  | .one p, h => p.plain h
  | .or p others, h => by
    rw [Options.isProper, Bool.and_eq_true] at h
    exact (p.plain h.1).add (others.plain h.2)

end

namespace Options

def bodies : Options → Language Char
  | .one p => p.language
  | .or p others => p.language * ({['|']} * others.bodies)

theorem unmarked_bodies : ∀ {os : Options}, os.isProper = true →
    ∀ w ∈ os.bodies, ∀ c ∈ w, isGroupMark c = false
  | .one p, h => (p.plain h).unmarked
  | .or p others, h => by
    rw [isProper, Bool.and_eq_true] at h
    intro w hw c hc
    obtain ⟨u, hu, t, ht, rfl⟩ := Language.mem_mul.mp hw
    obtain ⟨bar, rfl, v, hv, rfl⟩ := Language.mem_mul.mp ht
    rcases List.mem_append.mp hc with hc | hc
    · exact (p.plain h.1).unmarked u hu c hc
    · rcases List.mem_cons.mp hc with rfl | hc
      · rfl
      · exact unmarked_bodies h.2 v hv c hc

theorem alternatives_body {u : List Char} (h : ∀ c ∈ u, isText true c = true) (v : List Char) :
    alternatives 0 (u ++ (['|'] ++ v)) = u :: alternatives 0 v := by
  rw [alternatives_append h, List.singleton_append, alternatives_bar, List.modifyHead_cons,
    List.append_nil]

theorem mem_language_iff : ∀ {os : Options}, os.isProper = true → ∀ v,
    v ∈ os.language ↔ ∃ w ∈ os.bodies, v ∈ alternatives 0 w
  | .one p, h, v => by
    have uncut : ∀ w ∈ p.language, alternatives 0 w = [w] := by
      intro w hw
      have cut := alternatives_append (p.plain h w hw) []
      rwa [List.append_nil, alternatives, List.modifyHead_cons, List.append_nil] at cut
    constructor
    · intro hv
      refine ⟨v, hv, ?_⟩
      rw [uncut v hv]
      exact List.mem_singleton_self v
    · rintro ⟨w, hw, hv⟩
      rw [uncut w hw, List.mem_singleton] at hv
      rwa [hv]
  | .or p others, h, v => by
    rw [isProper, Bool.and_eq_true] at h
    have plain := p.plain h.1
    have bar : ∀ {w}, w ∈ others.bodies → ['|'] ++ w ∈ ({['|']} * others.bodies : Language Char) :=
      fun hw => Language.append_mem_mul rfl hw
    constructor
    · rintro (hv | hv)
      · -- the other alternatives need words too
        obtain ⟨x, hx⟩ := Phrase.exists_mem_options others
        obtain ⟨w, hw, -⟩ := (mem_language_iff h.2 x).mp hx
        refine ⟨v ++ (['|'] ++ w), Language.append_mem_mul hv (bar hw), ?_⟩
        rw [alternatives_body (plain v hv)]
        exact List.mem_cons_self
      · obtain ⟨u, hu⟩ := p.exists_mem_language
        obtain ⟨w, hw, hv⟩ := (mem_language_iff h.2 v).mp hv
        refine ⟨u ++ (['|'] ++ w), Language.append_mem_mul hu (bar hw), ?_⟩
        rw [alternatives_body (plain u hu)]
        exact List.mem_cons_of_mem u hv
    · rintro ⟨w, hw, hv⟩
      obtain ⟨u, hu, t, ht, rfl⟩ := Language.mem_mul.mp hw
      obtain ⟨b, rfl, t, inner, rfl⟩ := Language.mem_mul.mp ht
      rw [alternatives_body (plain u hu)] at hv
      rcases List.mem_cons.mp hv with rfl | hv
      · exact .inl hu
      · exact .inr ((mem_language_iff h.2 v).mpr ⟨t, inner, hv⟩)

end Options

mutual

theorem Phrase.standsFor : ∀ (p : Phrase) {inChoice : Bool}, p.isProper inChoice = true →
    StandsFor p.text p.language
  | .nil, _, _ => .nil
  | .char c rest, _, h => by
    rw [Phrase.isProper, Bool.and_eq_true] at h
    exact (StandsFor.singleton c).append (rest.standsFor h.2) (Plain.singleton h.1).open'
  | .optional body rest, _, h => by
    rw [Phrase.isProper, Bool.and_eq_true] at h
    have plain := body.plain h.1
    have group := (body.standsFor h.1).optional plain.unmarked body.exists_mem_language
    rw [Phrase.text, Phrase.language, List.append_cons]
    exact group.append (rest.standsFor h.2) (plain.add .one).open'
  | .choice options rest, _, h => by
    rw [Phrase.isProper, Bool.and_eq_true] at h
    have group := (options.standsFor h.1).choice (Options.unmarked_bodies h.1)
      (Options.mem_language_iff h.1)
    rw [Phrase.text, Phrase.language, List.append_cons]
    exact group.append (rest.standsFor h.2) (options.plain h.1).open'

theorem Options.standsFor : ∀ os : Options, os.isProper = true → StandsFor os.text os.bodies
  | .one p, h => p.standsFor h
  | .or p others, h => by
    rw [Options.isProper, Bool.and_eq_true] at h
    have bar : StandsFor ('|' :: others.text) ({['|']} * others.bodies) :=
      (StandsFor.singleton '|').append (others.standsFor h.2) (by
        rintro w rfl c hc
        rw [List.mem_singleton.mp hc]
        rfl)
    exact (p.standsFor h.1).append bar (p.plain h.1).open'

end

theorem nodup_eraseDups {α : Type} [BEq α] [LawfulBEq α] (l : List α) : l.eraseDups.Nodup := by
  induction h : l.length using Nat.strong_induction_on generalizing l with
  | _ n ih =>
    cases l with
    | nil => simp
    | cons a l =>
      have shorter : (l.filter fun b => !b == a).length < n := by
        rw [← h, List.length_cons]
        exact Nat.lt_succ_of_le (List.length_filter_le _ l)
      rw [List.eraseDups_cons, List.nodup_cons]
      refine ⟨?_, ih _ shorter _ rfl⟩
      rw [List.mem_eraseDups]
      simp

theorem Phrase.mem_results_text {p : Phrase} (h : p.isProper false = true)
    (o : Except Fault (List Char)) :
    o ∈ results p.text ↔ ∃ w ∈ p.language, o = .ok w :=
  (p.standsFor h).mem_results (p.plain h).unmarked

/-- Whatever an expander has expanded before, it expands a phrase without faults to the words of its
language, each once. -/
theorem Expander.expand_text (x : Expander) (p : Phrase) (h : p.isProper false = true) :
    (x.expand p.text).1.faults = [] ∧ (x.expand p.text).1.names.Nodup ∧
      ∀ w, w ∈ (x.expand p.text).1.names ↔ w ∈ p.language := by
  rw [expand_fst, Pattern.expand, ← results]
  refine ⟨?_, nodup_eraseDups _, ?_⟩
  · have clean : (results p.text).filterMap fault? = [] := by
      rw [List.filterMap_eq_nil_iff]
      intro o ho
      obtain ⟨w, -, rfl⟩ := (Phrase.mem_results_text h o).mp ho
      rfl
    rw [Expansion.ofOutcomes, clean]
    rfl
  · intro w
    rw [Expansion.ofOutcomes, List.mem_eraseDups, List.mem_filterMap]
    constructor
    · rintro ⟨o, ho, hw⟩
      obtain ⟨v, hv, rfl⟩ := (Phrase.mem_results_text h o).mp ho
      cases hw
      exact hv
    · intro hw
      exact ⟨.ok w, (Phrase.mem_results_text h _).mpr ⟨w, hw, rfl⟩, rfl⟩

theorem Expander.expand_text_of_choice :
    let x := (new.expand "[a](b[c".toList).2
    let p : Phrase := .choice (.or (.char 'a' .nil)
      (.one (.optional (.char 'b' .nil) (.char 'c' .nil)))) (.char '|' .nil)
    x ≠ new ∧ p.text = "(a|[b]c)|".toList ∧ p.isProper false = true ∧
      (x.expand p.text).1.faults = [] ∧ (x.expand p.text).1.names.Nodup ∧
      ∀ w, w ∈ (x.expand p.text).1.names ↔ w ∈ p.language := by
  intro x p
  have proper : p.isProper false = true := by decide
  exact ⟨by decide, by decide, proper, Expander.expand_text x p proper⟩

end ItemLexicon.Pattern
