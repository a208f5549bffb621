import ItemLexicon.Proofs.RegisteredNames

namespace ItemLexicon

namespace Text

theorem isSmall_of_isDigit {c : Char} (h : c.isDigit = true) : IsSmall c := by
  have each : ∀ n < 58, 48 ≤ n → IsSmall (Char.ofNat n) := by decide
  have range : 48 ≤ c.toNat ∧ c.toNat ≤ 57 := by
    simpa [Char.isDigit, UInt32.le_iff_toNat_le] using h
  have small := each c.toNat (Nat.lt_succ_of_le range.2) range.1
  rwa [Char.ofNat_toNat] at small

theorem isSmall_of_all {s : List Char} (h : s.all (decide <| IsSmall ·) = true) :
    ∀ c ∈ s, IsSmall c :=
  fun c hc => of_decide_eq_true (List.all_eq_true.mp h c hc)

theorem isTidy_of_eq {s : String} (ne : s ≠ "") (trimmed : trim s.toList = s.toList)
    (small : lowercase s = s) : IsTidy s.toList where
  ne_nil := fun none => ne (String.toList_eq_nil_iff.mp none)
  trim := trimmed ▸ isTrim_trim s.toList
  small := lowercase_eq_self_iff.mp small

theorem IsTidy.lower_trim {s : List Char} (h : IsTidy s) : lower (Text.trim s) = s := by
  rw [h.trim.trim_eq, lower, lowerAfter_of_isSmall h.small]

theorem IsTidy.append {s w : List Char} (h : IsTidy s) (small : ∀ c ∈ w, IsSmall c)
    (start : ∀ c ∈ w.head?, isBlank c = false) : IsTidy (w ++ s) where
  ne_nil := List.append_ne_nil_of_right_ne_nil w h.ne_nil
  trim := by
    have ends := isTrim_iff.mp h.trim
    rw [isTrim_iff, List.head?_append, List.getLast?_append]
    constructor
    · intro c hc
      rcases Option.or_eq_some_iff.mp hc with hc | ⟨-, hc⟩
      · exact start c hc
      · exact ends.1 c hc
    · intro c hc
      rw [List.getLast?_eq_some_getLast h.ne_nil, Option.some_or] at hc
      exact ends.2 c ((List.getLast?_eq_some_getLast h.ne_nil).trans hc)
  small := List.forall_mem_append.mpr ⟨small, h.small⟩

end Text

namespace Quantifier

/-- The ways to write a quantifier. -/
inductive Wording
  | amount (n : Nat) (le : n ≤ maxAmount)
  | amountOf (n : Nat) (le : n ≤ maxAmount)
  | amountOfEvery (n : Nat) (le : n ≤ maxAmount)
  | every
  | a
  | an

namespace Wording

def text : Wording → List Char
  | .amount n _ => Numeral.ofNat n ++ " ".toList
  | .amountOf n _ => Numeral.ofNat n ++ " of ".toList
  | .amountOfEvery n _ => Numeral.ofNat n ++ " of every ".toList
  | .every => "every ".toList
  | .a => "a ".toList
  | .an => "an ".toList

def meaning : Wording → Quantifier
  | .amount n _ => ⟨n, false⟩
  | .amountOf n _ => ⟨n, false⟩
  | .amountOfEvery n _ => ⟨n, true⟩
  | .every => ⟨-1, true⟩
  | .a => ⟨1, false⟩
  | .an => ⟨1, false⟩

end Wording

theorem read_ofNat {n : Nat} (le : n ≤ maxAmount) (s : List Char) :
    read (Numeral.ofNat n ++ ' ' :: s) = afterAmount n s := by
  have digits : ∀ c ∈ Numeral.ofNat n, c.isDigit = true := fun _ => Numeral.isDigit_of_mem_ofNat
  have space : ' ' ∉ Numeral.ofNat n := fun h => absurd (digits ' ' h) (by decide)
  have amount : amount? (Numeral.ofNat n) = some n := by
    rw [amount?, List.isEmpty_eq_false_iff.mpr (Numeral.ofNat_ne_nil n),
      List.all_eq_true.mpr digits, Numeral.natural_ofNat le]
    rfl
  rw [read, Text.cut_append_cons space]
  simp only [amount]

theorem read_word {w : List Char} (space : ' ' ∉ w) (word : amount? w = .none) (s : List Char) :
    read (w ++ ' ' :: s) = inWords (w ++ ' ' :: s) := by
  rw [read, Text.cut_append_cons space]
  simp only [word]

theorem afterAmount_of_not_prefix {s : List Char} (free : ¬"of ".toList <+: s) (n : Nat) :
    afterAmount n s = (⟨n, false⟩, s) := by
  have every : ¬"of every ".toList <+: s :=
    fun h => free (List.IsPrefix.trans ⟨"every ".toList, rfl⟩ h)
  rw [afterAmount, Text.dropPrefix?_of_not_prefix every, Text.dropPrefix?_of_not_prefix free]
  rfl

theorem afterAmount_of {s : List Char} (free : ¬"every ".toList <+: s) (n : Nat) :
    afterAmount n ("of ".toList ++ s) = (⟨n, false⟩, s) := by
  have every : ¬"of every ".toList <+: "of ".toList ++ s := fun h =>
    free ((List.prefix_append_right_inj "of ".toList).mp h)
  rw [afterAmount, Text.dropPrefix?_of_not_prefix every, Text.dropPrefix?_append]
  rfl

theorem afterAmount_ofEvery (s : List Char) (n : Nat) :
    afterAmount n ("of every ".toList ++ s) = (⟨n, true⟩, s) := by
  rw [afterAmount, Text.dropPrefix?_append]

namespace Wording

theorem read_text_append (w : Wording) {s : List Char} (free : ¬Leads s)
    (of : ¬"of ".toList <+: s) : read (w.text ++ s) = (w.meaning, s) := by
  simp only [Leads, not_or] at free
  cases w with
  | amount n le =>
    have shape : text (.amount n le) ++ s = Numeral.ofNat n ++ ' ' :: s := List.append_assoc ..
    rw [shape, read_ofNat le, afterAmount_of_not_prefix of]
    rfl
  | amountOf n le =>
    have shape : text (.amountOf n le) ++ s = Numeral.ofNat n ++ ' ' :: ("of ".toList ++ s) :=
      List.append_assoc ..
    rw [shape, read_ofNat le, afterAmount_of free.2.1]
    rfl
  | amountOfEvery n le =>
    have shape : text (.amountOfEvery n le) ++ s =
        Numeral.ofNat n ++ ' ' :: ("of every ".toList ++ s) := List.append_assoc ..
    rw [shape, read_ofNat le, afterAmount_ofEvery]
    rfl
  | every =>
    have word : read ("every".toList ++ ' ' :: s) = inWords ("every ".toList ++ s) :=
      read_word (by decide) (by decide) s
    refine word.trans ?_
    rw [inWords, Text.dropPrefix?_append]
    rfl
  | a =>
    have word : read ("a".toList ++ ' ' :: s) = inWords ("a ".toList ++ s) :=
      read_word (by decide) (by decide) s
    exact word
  | an =>
    have word : read ("an".toList ++ ' ' :: s) = inWords ("an ".toList ++ s) :=
      read_word (by decide) (by decide) s
    refine word.trans ?_
    rw [inWords, Text.dropPrefix?_append]
    rfl

theorem space_mem_text (w : Wording) : ' ' ∈ w.text := by
  cases w with
  | amount | amountOf | amountOfEvery => exact List.mem_append_right _ (by decide)
  | every | a | an => decide

theorem isSmall_text (w : Wording) : ∀ c ∈ w.text, Text.IsSmall c := by
  have behind : ∀ (n : Nat) {s : List Char}, (∀ c ∈ s, Text.IsSmall c) →
      ∀ c ∈ Numeral.ofNat n ++ s, Text.IsSmall c := by
    intro n s hs
    refine List.forall_mem_append.mpr ⟨fun c hc => ?_, hs⟩
    exact Text.isSmall_of_isDigit (Numeral.isDigit_of_mem_ofNat hc)
  cases w with
  | amount n | amountOf n | amountOfEvery n => exact behind n (Text.isSmall_of_all (by decide))
  | every | a | an => exact Text.isSmall_of_all (by decide)

theorem isBlank_head_text (w : Wording) : ∀ c ∈ w.text.head?, Text.isBlank c = false := by
  have digit : ∀ (n : Nat) (s : List Char),
      ∀ c ∈ (Numeral.ofNat n ++ s).head?, Text.isBlank c = false := by
    intro n s c hc
    have first := List.head?_eq_some_head (Numeral.ofNat_ne_nil n)
    rw [List.head?_append, first, Option.some_or] at hc
    have mem := List.mem_of_head? (first.trans hc)
    exact Text.isBlank_of_isDigit (Numeral.isDigit_of_mem_ofNat mem)
  cases w with
  | amount n | amountOf n | amountOfEvery n => exact digit n _
  | every | a | an =>
    rintro c ⟨⟩
    decide

theorem isTidy_text_append (w : Wording) {s : List Char} (h : Text.IsTidy s) :
    Text.IsTidy (w.text ++ s) :=
  h.append w.isSmall_text w.isBlank_head_text

end Wording

end Quantifier

namespace Selector

def quantify (q : Quantifier) (s : Selector) : Selector :=
  { s with amount := q.amount, all := q.all }

end Selector

namespace Context

variable {c : Context}

def unquantified? (c : Context) (name : List Char) : Option Selector :=
  ((Text.cutsAt " of ".toList name).findSome? (c.enchanted? .none)).or (c.quantified? .none name)

theorem quantified?_eq (q : Quantifier) (name : List Char) :
    c.quantified? q name = (c.quantified? .none name).map (Selector.quantify q) := by
  rw [quantified?, quantified?]
  split <;> rfl

theorem enchanted?_eq (q : Quantifier) (sides : List Char × List Char) :
    c.enchanted? q sides = (c.enchanted? .none sides).map (Selector.quantify q) := by
  rw [enchanted?, enchanted?, quantified?_eq q]
  cases c.quantified? .none sides.1 with
  | none => rfl
  | some s =>
    cases Enchantment.readAll? c.platform sides.2 with
    | none => rfl
    | some es => rfl

theorem resolve?_of_read {text : String} (tidy : Text.IsTidy text.toList)
    (star : text.toList ≠ ['*']) {q : Quantifier} {name : List Char}
    (read : Quantifier.read text.toList = (q, name)) :
    c.resolve? text = (c.unquantified? name).map (Selector.quantify q) := by
  have named : text.toList.isEmpty = false := List.isEmpty_eq_false_iff.mpr tidy.ne_nil
  have parted : c.enchanted? q = Option.map (Selector.quantify q) ∘ c.enchanted? .none :=
    funext fun sides => enchanted?_eq q sides
  rw [resolve?]
  simp only [tidy.lower_trim, named, Bool.false_eq_true, if_false, star, read]
  rw [parted, ← List.map_findSome?, quantified?_eq q, unquantified?, Option.map_or]

/-- In front of a name that does not begin like a quantifier itself, a quantifier sets the amount
and the extent of what the name stands for, and nothing else. -/
theorem resolve?_text_append (c : Context) (w : Quantifier.Wording) {t : String} (ne : t ≠ "")
    (trimmed : Text.trim t.toList = t.toList) (small : Text.lowercase t = t) (star : t ≠ "*")
    (free : ¬Quantifier.Leads t.toList) (of : ¬"of ".toList <+: t.toList) :
    c.resolve? (String.ofList (w.text ++ t.toList)) =
      (c.resolve? t).map fun s => { s with amount := w.meaning.amount, all := w.meaning.all } := by
  have tidy := Text.isTidy_of_eq ne trimmed small
  have star' : t.toList ≠ ['*'] := fun same => star (String.toList_injective same)
  have alone : c.resolve? t = (c.unquantified? t.toList).map (Selector.quantify .none) :=
    resolve?_of_read tidy star' (Quantifier.read_of_not_leads free)
  have written : (String.ofList (w.text ++ t.toList)).toList = w.text ++ t.toList :=
    String.toList_ofList
  have behind : c.resolve? (String.ofList (w.text ++ t.toList)) =
      (c.unquantified? t.toList).map (Selector.quantify w.meaning) := by
    apply resolve?_of_read
    · rw [written]
      exact w.isTidy_text_append tidy
    · rw [written]
      intro same
      have space := List.mem_append_left t.toList w.space_mem_text
      rw [same] at space
      exact absurd space (by decide)
    · rw [written]
      exact w.read_text_append free of
  rw [alone, behind, Option.map_map]
  rfl

theorem resolve?_text_append_of_blade :
    let p : Platform := ⟨⟨[1, 20, 4]⟩, false, [⟨"minecraft:diamond_sword", false, 1561⟩],
      [⟨"minecraft:sharpness", []⟩]⟩
    let c := ofRegistry
      ((Registry.empty p).run [.register ⟨⟨"blade", "blade", .a⟩, "diamond_sword", [], []⟩])
    let t := "blade of sharpness 5"
    (t ≠ "" ∧ Text.trim t.toList = t.toList ∧ Text.lowercase t = t ∧ t ≠ "*" ∧
      ¬Quantifier.Leads t.toList ∧ ¬"of ".toList <+: t.toList) ∧
    ∃ s, c.resolve? t = some s ∧ s.types ≠ [] ∧
      c.resolve? "12 of every blade of sharpness 5" = some { s with amount := 12, all := true } ∧
      c.resolve? "a blade of sharpness 5" = some { s with amount := 1, all := false } := by
  intro p c t
  have known : (c.resolve? t).map (fun s => s.types.isEmpty) = some false := by decide +kernel
  have form : t ≠ "" ∧ Text.trim t.toList = t.toList ∧ Text.lowercase t = t ∧ t ≠ "*" ∧
      ¬Quantifier.Leads t.toList ∧ ¬"of ".toList <+: t.toList := by decide +kernel
  clear_value c
  obtain ⟨ne, trimmed, small, star, free, of⟩ := form
  obtain ⟨s, hs, types⟩ := Option.map_eq_some_iff.mp known
  have many := resolve?_text_append c (.amountOfEvery 12 (by decide)) ne trimmed small star free of
  have one := resolve?_text_append c .a ne trimmed small star free of
  have written : String.ofList ("12 of every ".toList ++ t.toList) =
      "12 of every blade of sharpness 5" := by decide +kernel
  have written' : String.ofList ("a ".toList ++ t.toList) = "a blade of sharpness 5" := by
    decide +kernel
  have twelve : Quantifier.Wording.text (.amountOfEvery 12 (by decide)) =
      "12 of every ".toList := by decide +kernel
  rw [twelve, written, hs] at many
  rw [Quantifier.Wording.text, written', hs] at one
  exact ⟨⟨ne, trimmed, small, star, free, of⟩, s, hs, List.isEmpty_eq_false_iff.mp types, many, one⟩

end Context

end ItemLexicon
