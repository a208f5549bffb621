import ItemLexicon.Proofs.BlockText
import Mathlib.Algebra.Group.Int.Defs

/-! Numbers in the eyes of both readers of blocks: strict JSON takes a number apart as it reads it,
and the reader of blocks takes a bare word first. -/

namespace ItemLexicon.Tag

def digitsFrom (value : Nat) (s : List Char) : Nat :=
  s.foldl (fun n c => 10 * n + (c.toNat - 48)) value

theorem digitsFrom_cons (value : Nat) (c : Char) (s : List Char) :
    digitsFrom value (c :: s) = digitsFrom (10 * value + (c.toNat - 48)) s := by
  rw [digitsFrom, digitsFrom, List.foldl_cons]

theorem le_digitsFrom (value : Nat) (s : List Char) : value ≤ digitsFrom value s := by
  induction s generalizing value with
  | nil => exact Nat.le_refl _
  | cons c s ih => exact Nat.le_trans (by omega) (ih (10 * value + (c.toNat - 48)))

theorem digitsAfter_eq_ok_iff {limit value n : Nat} {s : List Char} (le : value ≤ limit) :
    Numeral.digitsAfter limit value s = .ok n ↔
      (∀ c ∈ s, c.isDigit = true) ∧ digitsFrom value s = n ∧ n ≤ limit := by
  induction s generalizing value with
  | nil =>
    rw [Numeral.digitsAfter, digitsFrom, List.foldl_nil]
    constructor
    · rintro ⟨⟩
      exact ⟨List.forall_mem_nil _, rfl, le⟩
    · rintro ⟨-, rfl, -⟩
      rfl
  | cons c s ih =>
    rw [Numeral.digitsAfter, Numeral.digit?, digitsFrom_cons, List.forall_mem_cons]
    by_cases digit : c.isDigit = true
    · rw [if_pos digit]
      dsimp only
      by_cases large : limit < 10 * value + (c.toNat - 48)
      · rw [if_pos large]
        have := le_digitsFrom (10 * value + (c.toNat - 48)) s
        constructor
        · rintro ⟨⟩
        · rintro ⟨-, rfl, small⟩
          omega
      · rw [if_neg large, ih (by omega)]
        exact ⟨fun h => ⟨⟨digit, h.1⟩, h.2⟩, fun h => ⟨h.1.2, h.2⟩⟩
    · rw [if_neg digit]
      constructor
      · rintro ⟨⟩
      · rintro ⟨⟨h, -⟩, -⟩
        exact absurd h digit

theorem digitsValue_ofNat (n : Nat) : digitsValue (Numeral.ofNat n) = n :=
  ((digitsAfter_eq_ok_iff (Nat.zero_le n)).mp (Numeral.digitsAfter_ofNat (Nat.le_refl n))).2.1

theorem ofBare_of_number? {s : List Char} {t : Tag} (h : number? s = some t) : ofBare s = t := by
  have words : ∀ w ∈ ["true", "false", "null"], s ≠ w.toList := by
    rintro w hw rfl
    simp only [List.mem_cons, List.not_mem_nil, or_false] at hw
    rcases hw with rfl | rfl | rfl <;> cases h
  rw [ofBare, if_neg (words _ (by simp)), if_neg (words _ (by simp)), if_neg (words _ (by simp)), h]

theorem integer_minus_eq_ok_iff {limit : Nat} {s : List Char} {i : Int} (ne : s ≠ []) :
    Numeral.integer limit ('-' :: s) = .ok i ↔
      ∃ k : Nat, Numeral.digitsAfter (limit + 1) 0 s = .ok k ∧ i = -k := by
  rw [Numeral.integer]
  · cases Numeral.digitsAfter (limit + 1) 0 s with
    | error e => exact ⟨fun h => (nomatch h), fun ⟨_, h, _⟩ => (nomatch h)⟩
    | ok k =>
      constructor
      · rintro ⟨⟩
        exact ⟨k, rfl, rfl⟩
      · rintro ⟨_, ⟨⟩, rfl⟩
        rfl
  · exact fun h => ne h

theorem integer_digit_eq_ok_iff {limit : Nat} {c : Char} {s : List Char} {i : Int}
    (digit : c.isDigit = true) : Numeral.integer limit (c :: s) = .ok i ↔
      ∃ k : Nat, Numeral.digitsAfter limit 0 (c :: s) = .ok k ∧ i = k := by
  have minus : c ≠ '-' := by
    rintro rfl
    cases digit
  have plus : c ≠ '+' := by
    rintro rfl
    cases digit
  have natural : Numeral.natural limit (c :: s) = Numeral.digitsAfter limit 0 (c :: s) := by
    rw [Numeral.natural]
    · exact fun h _ => plus h
    · exact fun h => plus h
  rw [Numeral.integer, natural]
  · cases Numeral.digitsAfter limit 0 (c :: s) with
    | error e => exact ⟨fun h => (nomatch h), fun ⟨_, h, _⟩ => (nomatch h)⟩
    | ok k =>
      constructor
      · rintro ⟨⟩
        exact ⟨k, rfl, rfl⟩
      · rintro ⟨_, ⟨⟩, rfl⟩
        rfl
  · exact fun h => minus (List.cons.inj h).1
  · exact fun _ h => minus (List.cons.inj h).1

end ItemLexicon.Tag

namespace ItemLexicon.Json

open Tag (Stops stops_cons takeWhile_append_of_stops dropWhile_append_of_stops)

theorem isBareValue_of_isDigit {c : Char} (h : c.isDigit = true) :
    Tag.Cursor.isBareValue c = true := by
  have ascii : c.toNat < 128 := by
    simp only [Char.isDigit, Bool.and_eq_true, decide_eq_true_eq] at h
    exact Nat.lt_of_le_of_lt h.2 (by decide)
  rw [Tag.Cursor.isBareValue, Tag.Cursor.isBareKey, Text.isAlphanumeric_of_ascii ascii,
    Char.isAlphanum, h]
  simp

theorem isBareValue_of_point {c : Char} (h : (c == '.') = true) :
    Tag.Cursor.isBareValue c = true := by
  rw [beq_iff_eq.mp h]
  rfl

theorem isBareValue_of_mark {c : Char} (h : (c == 'e' || c == 'E') = true) :
    Tag.Cursor.isBareValue c = true := by
  rw [Bool.or_eq_true, beq_iff_eq, beq_iff_eq] at h
  rcases h with rfl | rfl <;> rfl

structure IsDigits (s : List Char) : Prop where
  ne_nil : s ≠ []
  digits : ∀ c ∈ s, c.isDigit = true

theorem IsDigits.eq_append_digit {s : List Char} (h : IsDigits s) :
    ∃ t d, s = t ++ [d] ∧ d.isDigit = true :=
  ⟨s.dropLast, s.getLast h.ne_nil, (List.dropLast_concat_getLast h.ne_nil).symm,
    h.digits _ (List.getLast_mem h.ne_nil)⟩

inductive FractionText : Option (List Char) → List Char → Prop
  | none : FractionText none []
  | some {ds : List Char} (h : IsDigits ds) : FractionText (some ds) ('.' :: ds)

inductive SignText : Bool → List Char → Prop
  | none : SignText false []
  | plus : SignText false ['+']
  | minus : SignText true ['-']

inductive ExponentText : Option (Bool × List Char) → List Char → Prop
  | none : ExponentText none []
  | some {mark : Char} {negative : Bool} {sign ds : List Char} (hm : mark = 'e' ∨ mark = 'E')
      (hs : SignText negative sign) (h : IsDigits ds) :
      ExponentText (some (negative, ds)) (mark :: (sign ++ ds))

inductive Spells : NumberText → List Char → Prop
  | intro (negative : Bool) {whole f e : List Char} {fraction : Option (List Char)}
      {exponent : Option (Bool × List Char)} (digits : IsDigits whole)
      (lead : ∀ c s, whole ≠ '0' :: c :: s) (hf : FractionText fraction f)
      (he : ExponentText exponent e) :
      Spells ⟨negative, whole, fraction, exponent⟩ (whole ++ (f ++ e))

namespace Document

theorem digits_eq {s ds rest : List Char} (h : digits s = (ds, rest)) :
    (∀ c ∈ ds, c.isDigit = true) ∧ s = ds ++ rest := by
  obtain ⟨rfl, rfl⟩ := Prod.mk.inj h
  exact ⟨List.all_eq_true.mp List.all_takeWhile, List.takeWhile_append_dropWhile.symm⟩

theorem digits_append {ds rest : List Char} (h : ∀ c ∈ ds, c.isDigit = true)
    (stop : Stops Char.isDigit rest) : digits (ds ++ rest) = (ds, rest) := by
  rw [digits, takeWhile_append_of_stops h stop, dropWhile_append_of_stops h stop]

theorem whole?_eq_some {s ds rest : List Char} (h : whole? s = some (ds, rest)) :
    IsDigits ds ∧ (∀ c t, ds ≠ '0' :: c :: t) ∧ s = ds ++ rest := by
  rw [whole?] at h
  split at h
  · cases h
  · cases h
  · rename_i empty zero
    have same := Option.some.inj h
    obtain ⟨all, whole⟩ := digits_eq same
    refine ⟨⟨?_, all⟩, ?_, whole⟩
    · rintro rfl
      exact empty _ same
    · rintro c t rfl
      exact zero _ _ _ same

theorem whole?_append {ds rest : List Char} (h : IsDigits ds) (lead : ∀ c t, ds ≠ '0' :: c :: t)
    (stop : Stops Char.isDigit rest) : whole? (ds ++ rest) = some (ds, rest) := by
  rw [whole?, digits_append h.digits stop]
  split
  · rename_i same
    exact absurd (Prod.mk.inj same).1 h.ne_nil
  · rename_i same
    exact absurd (Prod.mk.inj same).1 (lead _ _)
  · rfl

theorem fraction?_eq_some {s rest : List Char} {fraction : Option (List Char)}
    (h : fraction? s = some (fraction, rest)) : ∃ f, FractionText fraction f ∧ s = f ++ rest := by
  rw [fraction?.eq_def] at h
  split at h
  · split at h
    · cases h
    · rename_i t ds t' empty same
      cases h
      obtain ⟨all, rfl⟩ := digits_eq same
      exact ⟨_, .some ⟨empty, all⟩, rfl⟩
  · cases h
    exact ⟨[], .none, rfl⟩

theorem fraction?_append {f rest : List Char} {fraction : Option (List Char)}
    (h : FractionText fraction f) (stop : Stops Char.isDigit rest) (point : Stops (· == '.') rest) :
    fraction? (f ++ rest) = some (fraction, rest) := by
  cases h with
  | none =>
    rw [List.nil_append, fraction?.eq_def]
    split
    · cases point _ rfl
    · rfl
  | some h =>
    rw [List.cons_append, fraction?, digits_append h.digits stop]
    split
    · rename_i same
      exact absurd (Prod.mk.inj same).1 h.ne_nil
    · rename_i same
      cases same
      rfl

theorem exponentDigits?_eq_some {negative : Bool} {s rest : List Char}
    {exponent : Option (Bool × List Char)}
    (h : exponentDigits? negative s = some (exponent, rest)) :
    ∃ ds, IsDigits ds ∧ exponent = some (negative, ds) ∧ s = ds ++ rest := by
  rw [exponentDigits?] at h
  split at h
  · cases h
  · rename_i ds t empty same
    cases h
    obtain ⟨all, rfl⟩ := digits_eq same
    exact ⟨ds, ⟨empty, all⟩, rfl, rfl⟩

theorem exponentDigits?_append {negative : Bool} {ds rest : List Char} (h : IsDigits ds)
    (stop : Stops Char.isDigit rest) :
    exponentDigits? negative (ds ++ rest) = some (some (negative, ds), rest) := by
  rw [exponentDigits?, digits_append h.digits stop]
  split
  · rename_i same
    exact absurd (Prod.mk.inj same).1 h.ne_nil
  · rename_i same
    cases same
    rfl

theorem exponent?_eq_some {s rest : List Char} {exponent : Option (Bool × List Char)}
    (h : exponent? s = some (exponent, rest)) : ∃ e, ExponentText exponent e ∧ s = e ++ rest := by
  rw [exponent?.eq_def] at h
  split at h
  · cases h
    exact ⟨[], .none, rfl⟩
  · rename_i mark s
    split at h
    · rename_i marked
      have hm : mark = 'e' ∨ mark = 'E' := by
        rwa [Bool.or_eq_true, beq_iff_eq, beq_iff_eq] at marked
      split at h
      all_goals
        obtain ⟨ds, hds, rfl, rfl⟩ := exponentDigits?_eq_some h
      · exact ⟨_, .some hm .plus hds, rfl⟩
      · exact ⟨_, .some hm .minus hds, rfl⟩
      · exact ⟨_, .some hm .none hds, rfl⟩
    · cases h
      exact ⟨[], .none, rfl⟩

theorem exponent?_append {e rest : List Char} {exponent : Option (Bool × List Char)}
    (h : ExponentText exponent e) (stop : Stops Char.isDigit rest)
    (unmarked : Stops (fun c => c == 'e' || c == 'E') rest) :
    exponent? (e ++ rest) = some (exponent, rest) := by
  cases h with
  | none =>
    cases rest with
    | nil => rfl
    | cons c rest =>
      have none : ¬(c == 'e' || c == 'E') = true := by
        have := unmarked c rfl
        simp_all
      rw [List.nil_append, exponent?.eq_def]
      exact if_neg none
  | @some mark negative sign ds hm hs h =>
    have marked : (mark == 'e' || mark == 'E') = true := by
      rwa [Bool.or_eq_true, beq_iff_eq, beq_iff_eq]
    rw [List.cons_append, exponent?.eq_def]
    dsimp only
    rw [if_pos marked]
    cases hs with
    | plus => exact exponentDigits?_append h stop
    | minus => exact exponentDigits?_append h stop
    | none =>
      have read : exponentDigits? false (ds ++ rest) = some (some (false, ds), rest) :=
        exponentDigits?_append h stop
      rw [List.nil_append, ← read]
      obtain ⟨d, ds, rfl⟩ := List.exists_cons_of_ne_nil h.ne_nil
      have digit := h.digits d List.mem_cons_self
      split
      · rename_i same
        cases same
        cases digit
      · rename_i same
        cases same
        cases digit
      · rfl

theorem number?_eq_some {negative : Bool} {s rest : List Char} {d : Document}
    (h : number? negative s = some (d, rest)) :
    ∃ n w, d = .number n ∧ n.negative = negative ∧ Spells n w ∧ s = w ++ rest := by
  simp only [number?, Option.bind_eq_bind, Option.bind_eq_some_iff, Option.pure_def,
    Option.some.injEq, Prod.exists, Prod.mk.injEq] at h
  obtain ⟨whole, t, hwhole, fraction, u, hfraction, exponent, v, hexponent, rfl, rfl⟩ := h
  obtain ⟨digits, lead, rfl⟩ := whole?_eq_some hwhole
  obtain ⟨f, hf, rfl⟩ := fraction?_eq_some hfraction
  obtain ⟨e, he, rfl⟩ := exponent?_eq_some hexponent
  exact ⟨_, _, rfl, rfl, .intro negative digits lead hf he, by simp only [List.append_assoc]⟩

theorem number?_append {n : NumberText} {w rest : List Char} (h : Spells n w)
    (stop : Stops Tag.Cursor.isBareValue rest) :
    number? n.negative (w ++ rest) = some (.number n, rest) := by
  cases h with
  | @intro negative whole f e fraction exponent digits lead hf he =>
    -- No part of the number goes on in what follows it.
    have first : Stops Char.isDigit (e ++ rest) ∧ Stops (· == '.') (e ++ rest) := by
      cases he with
      | none => exact ⟨stop.mono isBareValue_of_isDigit, stop.mono isBareValue_of_point⟩
      | some hm => rcases hm with rfl | rfl <;> exact ⟨stops_cons rfl _, stops_cons rfl _⟩
    have second : Stops Char.isDigit (f ++ (e ++ rest)) := by
      cases hf with
      | none => exact first.1
      | some => exact stops_cons rfl _
    have third : Stops (fun c => c == 'e' || c == 'E') rest := stop.mono isBareValue_of_mark
    rw [number?, List.append_assoc, List.append_assoc, whole?_append digits lead second]
    dsimp only [bind, Option.bind]
    rw [fraction?_append hf first.1 first.2]
    dsimp only
    rw [exponent?_append he (stop.mono isBareValue_of_isDigit) third]
    rfl

end Document

namespace NumberText

open Tag (digitsFrom digitsFrom_cons le_digitsFrom)

def IsWhole (n : NumberText) : Prop := n.fraction = none ∧ n.exponent = none

def value (n : NumberText) : Int :=
  if n.negative then -(Tag.digitsValue n.whole : Int) else Tag.digitsValue n.whole

def nearest? (n : NumberText) : Option Binary64 :=
  Binary64.ofDecimal? n.negative (Tag.digitsValue (n.whole ++ n.fraction.getD []))
    (exponentValue n.exponent - (n.fraction.getD []).length)

def signed (n : NumberText) (w : List Char) : List Char := if n.negative then '-' :: w else w

/-- The reader of blocks and strict JSON agree on the number. -/
inductive ReadsAlike (n : NumberText) : Prop
  | int (whole : n.IsWhole) (least : -(2 ^ 63) ≤ n.value) (greatest : n.value < 2 ^ 63)
      (zero : n.negative = true → n.value ≠ 0)
  | float (large : n.IsWhole → n.value < -(2 ^ 63) ∨ 2 ^ 64 ≤ n.value)
      (nearest : n.float? = n.nearest?)

theorem extend_eq {significand : Nat} {s : List Char} (h : digitsFrom significand s < wordLimit) :
    extend significand s = (digitsFrom significand s, 0) := by
  induction s generalizing significand with
  | nil => rfl
  | cons c s ih =>
    rw [digitsFrom_cons] at h ⊢
    have small := Nat.lt_of_le_of_lt (le_digitsFrom _ s) h
    rw [extend]
    rw [if_pos small, ih h]

theorem extend_snd_ne_zero {significand : Nat} {s : List Char} (small : significand < wordLimit)
    (h : wordLimit ≤ digitsFrom significand s) : (extend significand s).2 ≠ 0 := by
  induction s generalizing significand with
  | nil => exact absurd small (Nat.not_lt.mpr h)
  | cons c s ih =>
    rw [digitsFrom_cons] at h
    rw [extend]
    split
    · rename_i next
      exact ih next h
    · exact Nat.succ_ne_zero _

theorem integer?_eq_none {n : NumberText}
    (h : n.IsWhole → n.value < -(2 ^ 63) ∨ 2 ^ 64 ≤ n.value) : n.integer? = none := by
  obtain ⟨negative, whole, fraction, exponent⟩ := n
  rw [integer?]
  dsimp only
  split
  · rename_i significand fits
    have large := h ⟨rfl, rfl⟩
    have small : digitsFrom 0 whole < wordLimit := by
      apply Decidable.byContradiction
      intro large
      exact extend_snd_ne_zero (by decide) (Nat.not_lt.mp large) (by rw [fits])
    rw [extend_eq small] at fits
    obtain ⟨rfl, -⟩ := Prod.mk.inj fits
    have word : wordLimit = 2 ^ 64 := rfl
    rw [value] at large
    dsimp only at large
    rw [Tag.digitsValue, ← digitsFrom] at large
    cases negative with
    | false =>
      rw [if_neg Bool.false_ne_true] at large
      omega
    | true =>
      rw [if_pos rfl] at large
      have bound : Nat.pow 2 63 = 2 ^ 63 := rfl
      rw [if_pos rfl, if_neg]
      rw [Bool.and_eq_true, decide_eq_true_eq, decide_eq_true_eq, bound]
      omega
  · rfl

theorem integer?_eq_some {n : NumberText} (whole : n.IsWhole) (least : -(2 ^ 63) ≤ n.value)
    (greatest : n.value < 2 ^ 64) (zero : n.negative = true → n.value ≠ 0) :
    n.integer? = some n.value := by
  obtain ⟨negative, whole, fraction, exponent⟩ := n
  obtain ⟨rfl, rfl⟩ := whole
  rw [value] at *
  dsimp only at *
  rw [Tag.digitsValue, ← digitsFrom] at *
  have word : wordLimit = 2 ^ 64 := rfl
  cases negative with
  | false =>
    rw [if_neg Bool.false_ne_true] at *
    rw [integer?]
    dsimp only
    rw [extend_eq (by omega)]
    rfl
  | true =>
    rw [if_pos rfl] at *
    have := zero rfl
    have bound : Nat.pow 2 63 = 2 ^ 63 := rfl
    rw [integer?]
    dsimp only
    rw [extend_eq (by omega)]
    refine (if_pos rfl).trans (if_pos ?_)
    rw [Bool.and_eq_true, decide_eq_true_eq, decide_eq_true_eq, bound]
    omega

end NumberText

theorem digits_of_integer_signed {n : NumberText} {c : Char} {s : List Char} {limit : Nat} {i : Int}
    (digit : c.isDigit = true) (h : Numeral.integer limit (n.signed (c :: s)) = .ok i) :
    ∀ d ∈ c :: s, d.isDigit = true := by
  rw [NumberText.signed] at h
  split at h
  · obtain ⟨k, hk, -⟩ := (Tag.integer_minus_eq_ok_iff (List.cons_ne_nil c s)).mp h
    exact ((Tag.digitsAfter_eq_ok_iff (Nat.zero_le _)).mp hk).1
  · obtain ⟨k, hk, -⟩ := (Tag.integer_digit_eq_ok_iff digit).mp h
    exact ((Tag.digitsAfter_eq_ok_iff (Nat.zero_le _)).mp hk).1

theorem float?_signed {n : NumberText} {c : Char} {s : List Char} (digit : c.isDigit = true) :
    Tag.float? (n.signed (c :: s)) = Tag.magnitude? n.negative (c :: s) := by
  rw [NumberText.signed]
  split
  · rename_i negative
    rw [negative]
    rfl
  · rename_i positive
    rw [Bool.eq_false_iff.mpr positive, Tag.float?.eq_def]
    split
    · rename_i minus
      cases minus
      cases digit
    · rename_i plus
      cases plus
      cases digit
    · rfl

namespace Spells

open NumberText

variable {n : NumberText} {w : List Char}

theorem eq_of_isWhole (h : Spells n w) (whole : n.IsWhole) : w = n.whole := by
  cases h with
  | intro _ _ _ hf he =>
    obtain ⟨rfl, rfl⟩ := whole
    cases hf
    cases he
    rw [List.append_nil, List.append_nil]

theorem exists_cons (h : Spells n w) : ∃ c s, w = c :: s ∧ c.isDigit = true := by
  cases h with
  | intro _ digits =>
    obtain ⟨c, s, rfl⟩ := List.exists_cons_of_ne_nil digits.ne_nil
    exact ⟨c, _, rfl, digits.digits c List.mem_cons_self⟩

theorem isBareValue (h : Spells n w) : ∀ c ∈ n.signed w, Tag.Cursor.isBareValue c = true := by
  have unsigned : ∀ c ∈ w, Tag.Cursor.isBareValue c = true := by
    have digits {ds : List Char} (h : IsDigits ds) : ∀ c ∈ ds, Tag.Cursor.isBareValue c = true :=
      fun c hc => isBareValue_of_isDigit (h.digits c hc)
    cases h with
    | intro _ whole _ hf he =>
      refine List.forall_mem_append.mpr ⟨digits whole, List.forall_mem_append.mpr ⟨?_, ?_⟩⟩
      · cases hf with
        | none => exact List.forall_mem_nil _
        | some h => exact List.forall_mem_cons.mpr ⟨rfl, digits h⟩
      · cases he with
        | none => exact List.forall_mem_nil _
        | some hm hs h =>
          refine List.forall_mem_cons.mpr ⟨?_, List.forall_mem_append.mpr ⟨?_, digits h⟩⟩
          · rcases hm with rfl | rfl <;> rfl
          · cases hs with
            | none => exact List.forall_mem_nil _
            | plus => exact List.forall_mem_singleton.mpr rfl
            | minus => exact List.forall_mem_singleton.mpr rfl
  rw [signed]
  split
  · exact List.forall_mem_cons.mpr ⟨rfl, unsigned⟩
  · exact unsigned

theorem signed_eq_cons (h : Spells n w) :
    ∃ c s, n.signed w = c :: s ∧ (c = '-' ∨ c.isDigit = true) := by
  obtain ⟨c, s, rfl, digit⟩ := h.exists_cons
  rw [signed]
  split
  · exact ⟨'-', c :: s, rfl, .inl rfl⟩
  · exact ⟨c, s, rfl, .inr digit⟩

theorem signed_ne_nil (h : Spells n w) : n.signed w ≠ [] := by
  obtain ⟨c, s, same, -⟩ := h.signed_eq_cons
  rw [same]
  exact List.cons_ne_nil _ _

theorem signed_append_ne (h : Spells n w) {q : Char} (hq : q ≠ '-' ∧ q.isDigit = false)
    (rest s : List Char) : n.signed w ++ rest ≠ q :: s := by
  obtain ⟨c, t, same, first⟩ := h.signed_eq_cons
  rw [same]
  intro whole
  obtain ⟨rfl, -⟩ := List.cons.inj whole
  rcases first with rfl | digit
  · exact hq.1 rfl
  · rw [hq.2] at digit
    cases digit

theorem eq_append_digit (h : Spells n w) : ∃ s d, w = s ++ [d] ∧ d.isDigit = true := by
  cases h with
  | @intro _ whole f _ _ _ digits _ hf he =>
    cases he with
    | @some mark _ sign _ hm hs h =>
      obtain ⟨s, d, rfl, digit⟩ := h.eq_append_digit
      exact ⟨whole ++ (f ++ mark :: (sign ++ s)), d,
        by simp only [List.append_assoc, List.cons_append], digit⟩
    | none =>
      cases hf with
      | some h =>
        obtain ⟨s, d, rfl, digit⟩ := h.eq_append_digit
        exact ⟨whole ++ '.' :: s, d,
          by simp only [List.append_assoc, List.cons_append, List.append_nil], digit⟩
      | none =>
        obtain ⟨s, d, rfl, digit⟩ := digits.eq_append_digit
        exact ⟨s, d, by simp only [List.append_nil], digit⟩

theorem isWhole_of_digits (h : Spells n w) (digits : ∀ c ∈ w, c.isDigit = true) : n.IsWhole := by
  cases h with
  | intro _ _ _ hf he =>
    constructor
    · cases hf with
      | none => rfl
      | some => cases digits '.' (by simp)
    · cases he with
      | none => rfl
      | @some mark _ _ _ hm =>
        have digit := digits mark (by simp)
        rcases hm with rfl | rfl <;> cases digit

theorem eq_digits_iff (h : Spells n w) {i : Nat} :
    ((∀ c ∈ w, c.isDigit = true) ∧ Tag.digitsFrom 0 w = i) ↔
      n.IsWhole ∧ Tag.digitsValue n.whole = i := by
  constructor
  · rintro ⟨digits, rfl⟩
    have whole := h.isWhole_of_digits digits
    rw [h.eq_of_isWhole whole]
    exact ⟨whole, rfl⟩
  · rintro ⟨whole, rfl⟩
    rw [h.eq_of_isWhole whole]
    cases h with
    | intro _ digits => exact ⟨digits.digits, rfl⟩

theorem integer_eq_ok_iff (h : Spells n w) {i : Int} :
    Numeral.integer (Nat.pow 2 63 - 1) (n.signed w) = .ok i ↔
      n.IsWhole ∧ i = n.value ∧ -(2 ^ 63) ≤ i ∧ i < 2 ^ 63 := by
  have bound : Nat.pow 2 63 = 2 ^ 63 := rfl
  have read {limit k : Nat} : Numeral.digitsAfter limit 0 w = .ok k ↔
      n.IsWhole ∧ Tag.digitsValue n.whole = k ∧ k ≤ limit := by
    rw [Tag.digitsAfter_eq_ok_iff (Nat.zero_le _), ← and_assoc, h.eq_digits_iff, and_assoc]
  obtain ⟨c, s, rfl, digit⟩ := h.exists_cons
  rw [signed, value]
  split
  · simp only [Tag.integer_minus_eq_ok_iff (List.cons_ne_nil c s), read]
    constructor
    · rintro ⟨_, ⟨whole, rfl, le⟩, rfl⟩
      exact ⟨whole, rfl, by omega, by omega⟩
    · rintro ⟨whole, rfl, least, -⟩
      exact ⟨_, ⟨whole, rfl, by omega⟩, rfl⟩
  · simp only [Tag.integer_digit_eq_ok_iff digit, read]
    constructor
    · rintro ⟨_, ⟨whole, rfl, le⟩, rfl⟩
      exact ⟨whole, rfl, by omega, by omega⟩
    · rintro ⟨whole, rfl, -, greatest⟩
      exact ⟨_, ⟨whole, rfl, by omega⟩, rfl⟩

theorem decimalExponent?_eq {exponent : Option (Bool × List Char)} {e : List Char}
    (h : ExponentText exponent e) : Tag.decimalExponent? e = some (exponentValue exponent) := by
  cases h with
  | none => rfl
  | @some mark negative sign ds hm hs digits =>
    have read (negative : Bool) : (if (ds.isEmpty || !ds.all Char.isDigit) = true then none
        else some (if negative = true then -(Tag.digitsValue ds : Int) else Tag.digitsValue ds)) =
        some (exponentValue (some (negative, ds))) := by
      rw [List.isEmpty_eq_false_iff.mpr digits.ne_nil, List.all_eq_true.mpr digits.digits]
      rfl
    have marked : (mark == 'e' || mark == 'E') = true := by
      rwa [Bool.or_eq_true, beq_iff_eq, beq_iff_eq]
    rw [Tag.decimalExponent?.eq_def]
    dsimp only
    rw [if_pos marked]
    cases hs with
    | plus => exact read false
    | minus => exact read true
    | none =>
      rw [List.nil_append]
      split
      · cases digits.digits '+' List.mem_cons_self
      · cases digits.digits '-' List.mem_cons_self
      · exact read false

theorem decimalParts_eq {whole f e : List Char} {fraction : Option (List Char)}
    {exponent : Option (Bool × List Char)} (digits : IsDigits whole) (hf : FractionText fraction f)
    (he : ExponentText exponent e) :
    Tag.decimalParts (whole ++ (f ++ e)) = (whole, fraction.getD [], e) := by
  have stop : Stops Char.isDigit e ∧ Stops (· == '.') e := by
    cases he with
    | none => exact ⟨by rintro c ⟨⟩, by rintro c ⟨⟩⟩
    | some hm => rcases hm with rfl | rfl <;> exact ⟨stops_cons rfl _, stops_cons rfl _⟩
  rw [Tag.decimalParts]
  cases hf with
  | none =>
    rw [List.nil_append, takeWhile_append_of_stops digits.digits stop.1,
      dropWhile_append_of_stops digits.digits stop.1]
    split
    · cases stop.2 '.' rfl
    · rfl
  | @some ds h =>
    have point : Stops Char.isDigit ('.' :: (ds ++ e)) := stops_cons rfl _
    rw [List.cons_append, takeWhile_append_of_stops digits.digits point,
      dropWhile_append_of_stops digits.digits point]
    change (whole, (ds ++ e).takeWhile Char.isDigit, (ds ++ e).dropWhile Char.isDigit) = _
    rw [takeWhile_append_of_stops h.digits stop.1, dropWhile_append_of_stops h.digits stop.1]
    rfl

theorem magnitude?_eq (h : Spells n w) : Tag.magnitude? n.negative w = n.nearest? := by
  cases h with
  | @intro negative whole f e fraction exponent digits lead hf he =>
    rw [Tag.magnitude?, decimalParts_eq digits hf he]
    split
    · rename_i same
      exact absurd (Prod.mk.inj same).1 digits.ne_nil
    · rename_i same
      cases same
      rw [decimalExponent?_eq he]
      rfl

theorem float?_eq (h : Spells n w) : Tag.float? (n.signed w) = n.nearest? := by
  obtain ⟨c, s, rfl, digit⟩ := h.exists_cons
  rw [float?_signed digit, h.magnitude?_eq]

end Spells

theorem number?_signed {n : NumberText} {w : List Char} {t : Tag} (h : Spells n w)
    (alike : n.ReadsAlike) (ht : n.tag? = some t) : Tag.number? (n.signed w) = some t := by
  rw [Tag.number?]
  rw [NumberText.tag?] at ht
  cases alike with
  | int whole least greatest zero =>
    rw [NumberText.integer?_eq_some whole least (by omega) zero] at ht
    rw [h.integer_eq_ok_iff.mpr ⟨whole, rfl, least, greatest⟩]
    exact ht
  | float large nearest =>
    rw [NumberText.integer?_eq_none large, nearest] at ht
    split
    · rename_i i same
      obtain ⟨whole, rfl, least, greatest⟩ := h.integer_eq_ok_iff.mp same
      have := large whole
      omega
    · rw [h.float?_eq]
      exact ht

end ItemLexicon.Json
