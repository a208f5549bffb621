import ItemLexicon.Proofs.References
import Mathlib.Data.List.Infix

/-! Names whose braces do not pair up, and which of them are reported.  A name is cut with one open
brace in mind, so a second one that opens takes the place of the first.  Only the braces of a name
count for that, and of these only neighbours. -/

namespace ItemLexicon

def Fault.isBracket : Fault → Bool
  | tooManyBrackets .. => true
  | notEnoughBrackets .. => true
  | _ => false

namespace Expansion

def braces (s : List Char) : List Char := s.filter isBrace

def IsDoubled (b : List Char) : Prop := ['\x7b', '\x7b'] <:+: b

/-- A brace closes first or behind another one that closes, or the last one opens. -/
def HasLooseEnd (b : List Char) : Prop :=
  b.head? = some '\x7d' ∨ ['\x7d', '\x7d'] <:+: b ∨ b.getLast? = some '\x7b'

theorem not_hasLooseEnd_nil : ¬HasLooseEnd [] := by simp [HasLooseEnd]

theorem hasLooseEnd_surplus (b : List Char) : HasLooseEnd ('\x7d' :: b) := .inl rfl

theorem hasLooseEnd_open : HasLooseEnd ['\x7b'] := .inr (.inr rfl)

theorem hasLooseEnd_double (b : List Char) :
    HasLooseEnd ('\x7b' :: '\x7b' :: b) ↔ HasLooseEnd ('\x7b' :: b) := by
  simp [HasLooseEnd, List.infix_cons_iff, List.getLast?_cons_cons]

theorem hasLooseEnd_pair (b : List Char) :
    HasLooseEnd ('\x7b' :: '\x7d' :: b) ↔ HasLooseEnd b := by
  cases b with
  | nil => simp [HasLooseEnd, List.infix_cons_iff]
  | cons c b =>
    have same : '\x7d' = c ↔ c = '\x7d' := eq_comm
    simp [HasLooseEnd, List.infix_cons_iff, List.getLast?_cons_cons, or_assoc, same]

section Cutting

variable (find : String → Option VariationGroup)

def Cutter.remembered (c : Cutter) : List Char := if c.opened.isSome then ['\x7b'] else []

theorem exists_bracket_slots_iff (c : Cutter) (s : List Char) :
    (∃ f ∈ (slots find c s).2, f.isBracket = true) ↔ HasLooseEnd (c.remembered ++ braces s) := by
  induction s generalizing c with
  | nil =>
    obtain ⟨n, before, opened⟩ := c
    cases opened with
    | none => simp [slots, Cutter.remembered, braces, not_hasLooseEnd_nil]
    | some o => simp [slots, Cutter.remembered, braces, hasLooseEnd_open, Fault.isBracket]
  | cons d s ih =>
    obtain ⟨n, before, opened⟩ := c
    by_cases closes : d = '\x7d'
    · subst closes
      have brace : braces ('\x7d' :: s) = '\x7d' :: braces s := rfl
      cases opened with
      | none => simp [slots, brace, Cutter.remembered, hasLooseEnd_surplus, Fault.isBracket]
      | some o =>
        obtain ⟨start, inner⟩ := o
        have whole : Cutter.remembered ⟨n, before, some (start, inner)⟩ ++ braces ('\x7d' :: s) =
            '\x7b' :: '\x7d' :: braces s := rfl
        rw [whole, hasLooseEnd_pair, ← List.nil_append (braces s)]
        refine Iff.trans ?_ (ih ⟨n + 1, [], none⟩)
        rw [slots]
        dsimp only
        cases find (String.ofList (inner ++ ['\x7d'])) with
        | none => simp only [List.mem_cons, exists_eq_or_imp, Fault.isBracket, Bool.false_eq_true,
            false_or]
        | some g => rfl
    · rw [Cutter.slots_read closes, ih, Cutter.read]
      by_cases opens : d = '\x7b'
      · subst opens
        cases opened with
        | none => rfl
        | some o => exact (hasLooseEnd_double (braces s)).symm
      · have same : braces (d :: s) = braces s := by simp [braces, isBrace, opens, closes]
        rw [if_neg opens, same]
        cases opened <;> rfl

end Cutting

theorem isBrace_cases {c : Char} (h : isBrace c = true) : c = '\x7b' ∨ c = '\x7d' := by
  simpa [isBrace] using h

theorem eq_pairs_cons_cons_iff {c d : Char} {b : List Char} :
    (∃ k, c :: d :: b = (List.replicate k ['\x7b', '\x7d']).flatten) ↔
      c = '\x7b' ∧ d = '\x7d' ∧ ∃ k, b = (List.replicate k ['\x7b', '\x7d']).flatten := by
  constructor
  · rintro ⟨k, same⟩
    cases k with
    | zero => cases same
    | succ k =>
      rw [List.replicate_succ, List.flatten_cons] at same
      cases same
      exact ⟨rfl, rfl, k, rfl⟩
  · rintro ⟨rfl, rfl, k, rfl⟩
    exact ⟨k + 1, by rw [List.replicate_succ, List.flatten_cons]; rfl⟩

theorem ne_pairs_iff : ∀ {b : List Char}, (∀ c ∈ b, isBrace c = true) →
    ((¬∃ k, b = (List.replicate k ['\x7b', '\x7d']).flatten) ↔ HasLooseEnd b ∨ IsDoubled b)
  | [], _ => iff_of_false (fun h => h ⟨0, rfl⟩) (by simp [HasLooseEnd, IsDoubled])
  | [c], h => by
    refine iff_of_true ?_ (.inl ?_)
    · rintro ⟨k, same⟩
      cases k with
      | zero => cases same
      | succ k => cases same
    · rcases isBrace_cases (h c List.mem_cons_self) with rfl | rfl
      · exact hasLooseEnd_open
      · exact hasLooseEnd_surplus []
  | c :: d :: b, h => by
    obtain ⟨hc, hd, hb⟩ := by simpa only [List.forall_mem_cons] using h
    rw [eq_pairs_cons_cons_iff]
    rcases isBrace_cases hc with rfl | rfl
    · rcases isBrace_cases hd with rfl | rfl
      · exact iff_of_true (by simp) (.inr (List.prefix_append ['\x7b', '\x7b'] b).isInfix)
      · have rest := ne_pairs_iff hb
        rw [hasLooseEnd_pair]
        simpa [IsDoubled, List.infix_cons_iff] using rest
    · exact iff_of_true (by simp) (.inl (hasLooseEnd_surplus _))

theorem not_exists_spell_iff (name : List Char) :
    (¬∃ t : Template, t.spell = name) ↔ HasLooseEnd (braces name) ∨ IsDoubled (braces name) := by
  have paired : (∃ t : Template, t.spell = name) ↔
      ∃ k, braces name = (List.replicate k ['\x7b', '\x7d']).flatten := by
    simp only [braces, ← Template.exists_spell_iff]
    exact ⟨fun ⟨t, ht⟩ => ⟨_, t, ht, rfl⟩, fun ⟨_, t, ht, _⟩ => ⟨t, ht⟩⟩
  rw [paired]
  exact ne_pairs_iff fun c hc => (List.mem_filter.mp hc).2

/-- Braces that do not pair up into groups are reported, but for those of which two in a row open
while each one that closes has one in front that opens, and the last one closes. -/
theorem exists_bracket_fault_iff (find : String → Option VariationGroup) (name : List Char) :
    (∃ f ∈ (ofName find name).2, f.isBracket = true) ↔
      (¬∃ t : Template, t.spell = name) ∧
        ¬(IsDoubled (braces name) ∧ ¬HasLooseEnd (braces name)) := by
  have reported : (∃ f ∈ (ofName find name).2, f.isBracket = true) ↔ HasLooseEnd (braces name) :=
    exists_bracket_slots_iff find ⟨0, [], none⟩ name
  rw [reported, not_exists_spell_iff]
  by_cases loose : HasLooseEnd (braces name)
  · simp only [loose, true_or, not_true_eq_false, and_false, not_false_eq_true, and_self]
  · simp only [loose, false_or, not_false_eq_true, and_true, and_not_self]

theorem hidden_brace_is_not_reported :
    let find (key : String) : Option VariationGroup :=
      if key = "\x7bb\x7d" then some ⟨[("x", .empty)]⟩ else none
    let name := ['\x7b', 'a', '\x7b', 'b', '\x7d']
    (¬∃ t : Template, t.spell = name) ∧ (ofName find name).2 = [] := by
  intro find name
  have doubled : IsDoubled (braces name) := ⟨[], ['\x7d'], rfl⟩
  exact ⟨(not_exists_spell_iff name).mpr (.inr doubled), by decide⟩

end Expansion

end ItemLexicon
