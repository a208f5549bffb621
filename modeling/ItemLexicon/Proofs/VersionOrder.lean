import ItemLexicon.Version
import ItemLexicon.Proofs.PrintedOutline
import ItemLexicon.Proofs.Words
import Mathlib.Data.List.GetD
import Mathlib.Order.PiLex

namespace ItemLexicon

namespace Text

theorem cutAt_of_notMem {c : Char} {w s : List Char} (h : c ∉ s) : cutAt (c :: w) s = none := by
  induction s with
  | nil => rfl
  | cons d s ih =>
    rw [List.mem_cons, not_or] at h
    obtain ⟨hd, hs⟩ := h
    have rest := ih hs
    rw [cutAt, List.head?_eq_none_iff] at rest
    rw [cutAt, cutsAt, dropPrefix?, if_neg hd, rest]
    rfl

theorem cutAt_append {c : Char} {w s : List Char} (h : c ∉ s) (t : List Char) :
    cutAt (c :: w) (s ++ (c :: w ++ t)) = some (s, t) := by
  induction s with
  | nil =>
    rw [List.nil_append, List.cons_append, cutAt, cutsAt, ← List.cons_append, dropPrefix?_append]
    rfl
  | cons d s ih =>
    rw [List.mem_cons, not_or] at h
    obtain ⟨hd, hs⟩ := h
    have rest := ih hs
    rw [cutAt] at rest
    rw [List.cons_append, cutAt, cutsAt, dropPrefix?, if_neg hd, List.head?_map, rest]
    rfl

theorem dropSuffix?_eq_none_iff {w s : List Char} : dropSuffix? w s = none ↔ ¬w <:+ s := by
  constructor
  · rintro none ⟨t, rfl⟩
    rw [dropSuffix?_eq_some_iff.mpr rfl] at none
    cases none
  · intro apart
    cases found : dropSuffix? w s with
    | none => rfl
    | some t => exact absurd ⟨t, (dropSuffix?_eq_some_iff.mp found).symm⟩ apart

end Text

namespace Version

/-- The parts of a version with zeros behind them, in the order of the first difference. -/
def sequence (ns : List Nat) : Lex (Nat → Nat) := toLex fun i => ns.getD i 0

theorem sequence_nil_le (ns : List Nat) : sequence [] ≤ sequence ns :=
  Pi.toLex_monotone fun _ => Nat.zero_le _

theorem sequence_nil_eq_iff {ns : List Nat} :
    sequence [] = sequence ns ↔ ns.all (· == 0) = true := by
  rw [List.all_eq_true]
  constructor
  · intro same n hn
    obtain ⟨i, hi, rfl⟩ := List.mem_iff_getElem.mp hn
    have part := congrFun same i
    simpa [sequence, hi] using part.symm
  · intro zeros
    funext i
    by_cases hi : i < ns.length
    · have zero := eq_of_beq (zeros _ (List.getElem_mem hi))
      simp [sequence, hi, zero]
    · simp [sequence, hi]

theorem sequence_cons_lt {as bs : List Nat} (h : sequence as < sequence bs) (n : Nat) :
    sequence (n :: as) < sequence (n :: bs) := by
  obtain ⟨i, before, less⟩ := h
  refine ⟨i + 1, fun j hj => ?_, less⟩
  cases j with
  | zero => rfl
  | succ j => exact before j (Nat.lt_of_succ_lt_succ hj)

theorem sequence_cons_congr {as bs : List Nat} (h : sequence as = sequence bs) (n : Nat) :
    sequence (n :: as) = sequence (n :: bs) := by
  funext i
  cases i with
  | zero => rfl
  | succ i => exact congrFun h i

theorem sequence_lt_of_lt {m n : Nat} (h : m < n) (as bs : List Nat) :
    sequence (m :: as) < sequence (n :: bs) :=
  ⟨0, nofun, h⟩

theorem compares_compareParts (as bs : List Nat) :
    (compareParts as bs).Compares (sequence as) (sequence bs) := by
  induction as generalizing bs with
  | nil =>
    rw [compareParts]
    split
    · rename_i zeros
      exact sequence_nil_eq_iff.mpr zeros
    · rename_i other
      exact lt_of_le_of_ne (sequence_nil_le bs) fun same => other (sequence_nil_eq_iff.mp same)
  | cons a as ih =>
    cases bs with
    | nil =>
      have zeros : (a = 0 && as.all (· == 0)) = (a :: as).all (· == 0) := rfl
      rw [compareParts, zeros]
      split
      · rename_i zeros
        exact (sequence_nil_eq_iff.mpr zeros).symm
      · rename_i other
        exact lt_of_le_of_ne (sequence_nil_le _) fun same => other (sequence_nil_eq_iff.mp same)
    | cons b bs =>
      rw [compareParts]
      split
      · rename_i less
        exact sequence_lt_of_lt less as bs
      · rename_i notLess
        split
        · rename_i greater
          exact sequence_lt_of_lt greater bs as
        · rename_i notGreater
          obtain rfl : a = b := Nat.le_antisymm (Nat.not_lt.mp notGreater) (Nat.not_lt.mp notLess)
          have later := ih bs
          cases order : compareParts as bs with
          | lt =>
            rw [order] at later
            exact sequence_cons_lt later a
          | eq =>
            rw [order] at later
            exact sequence_cons_congr later a
          | gt =>
            rw [order] at later
            exact sequence_cons_lt later a

variable {v a b : Version}

theorem atMost_iff : a.atMost b = true ↔ sequence a.parts ≤ sequence b.parts := by
  rw [atMost, bne_iff_ne]
  exact (compares_compareParts a.parts b.parts).ne_gt

theorem same_iff : a.same b = true ↔ sequence a.parts = sequence b.parts := by
  rw [same, beq_iff_eq]
  exact (compares_compareParts a.parts b.parts).eq_eq

theorem compare_swap (a b : Version) : b.compare a = (a.compare b).swap :=
  (compares_compareParts b.parts a.parts).inj (compares_compareParts a.parts b.parts).swap

theorem sequence_append_zeros (ns : List Nat) (n : Nat) :
    sequence (ns ++ List.replicate n 0) = sequence ns := by
  funext i
  by_cases hi : i < ns.length
  · exact List.getD_append ns _ 0 i hi
  · have behind := List.getD_append_right ns (List.replicate n 0) 0 i (Nat.not_lt.mp hi)
    simpa [sequence, hi] using behind

theorem sequence_eq_iff {as bs : List Nat} : sequence as = sequence bs ↔
    ∃ m n, as ++ List.replicate m 0 = bs ++ List.replicate n 0 := by
  constructor
  · intro same
    refine ⟨bs.length, as.length, List.ext_getElem (by simp [Nat.add_comm]) fun i hi hi' => ?_⟩
    rw [← sequence_append_zeros as bs.length, ← sequence_append_zeros bs as.length] at same
    have part := congrFun same i
    have parts : (as ++ List.replicate bs.length 0).getD i 0 =
      (bs ++ List.replicate as.length 0).getD i 0 := part
    rwa [List.getD_eq_getElem _ 0 hi, List.getD_eq_getElem _ 0 hi'] at parts
  · rintro ⟨m, n, same⟩
    rw [← sequence_append_zeros as m, same, sequence_append_zeros]

structure IsProper (v : Version) : Prop where
  ne_nil : v.parts ≠ []
  inRange : ∀ n ∈ v.parts, n ≤ partLimit

def IsReadable (v : Version) : Prop := ∃ s, ofChars s = .ok v

theorem inRange_of_readParts {ps : List (List Char)} {ns : List Nat} (h : readParts ps = .ok ns) :
    ns.length = ps.length ∧ ∀ n ∈ ns, n ≤ partLimit := by
  induction ps generalizing ns with
  | nil =>
    cases h
    exact ⟨rfl, List.forall_mem_nil _⟩
  | cons p ps ih =>
    rw [readParts] at h
    split at h
    · cases h
    · rename_i n first
      cases rest : readParts ps with
      | error e =>
        rw [rest] at h
        cases h
      | ok ms =>
        rw [rest] at h
        cases h
        obtain ⟨lengths, inRange⟩ := ih rest
        exact ⟨congrArg (· + 1) lengths,
          List.forall_mem_cons.mpr ⟨Numeral.le_of_natural first, inRange⟩⟩

theorem IsReadable.isProper (h : v.IsReadable) : v.IsProper := by
  obtain ⟨s, h⟩ := h
  simp only [ofChars] at h
  split at h
  · cases h
  · split at h
    · rename_i parts read
      cases h
      obtain ⟨lengths, inRange⟩ := inRange_of_readParts read
      refine ⟨fun none => Text.splitOn_ne_nil '.' (Text.trim s) ?_, inRange⟩
      rw [← List.length_eq_zero_iff, ← lengths, List.length_eq_zero_iff]
      exact none
    · cases h

def extend (v : Version) (n : Nat) : Version := ⟨v.parts ++ List.replicate n 0⟩

def extendedText (v : Version) (n : Nat) : List Char :=
  v.toChars ++ (List.replicate n ".0".toList).flatten

theorem IsProper.extend (h : v.IsProper) (n : Nat) : (v.extend n).IsProper where
  ne_nil := List.append_ne_nil_of_left_ne_nil h.ne_nil _
  inRange := by
    intro m hm
    rcases List.mem_append.mp hm with hm | hm
    · exact h.inRange m hm
    · rw [List.eq_of_mem_replicate hm]
      exact Nat.zero_le _

theorem IsProper.toChars_extend (h : v.IsProper) (n : Nat) :
    (v.extend n).toChars = v.extendedText n := by
  induction n with
  | zero => simp [Version.extend, extendedText]
  | succ n ih =>
    have ne : ((v.extend n).parts.map Numeral.ofNat) ≠ [] :=
      fun none => (h.extend n).ne_nil (List.map_eq_nil_iff.mp none)
    have longer : (v.extend (n + 1)).parts = (v.extend n).parts ++ [0] := by
      simp [Version.extend, List.replicate_succ']
    rw [toChars, longer, List.map_append, List.map_singleton, Text.join_append_singleton ne,
      ← toChars, ih, extendedText, extendedText, List.replicate_succ']
    simp [Numeral.ofNat]

@[simp] theorem atMost_extend (v a : Version) (m n : Nat) :
    (v.extend m).atMost (a.extend n) = v.atMost a := by
  rw [Bool.eq_iff_iff, atMost_iff, atMost_iff, extend, extend, sequence_append_zeros,
    sequence_append_zeros]

@[simp] theorem same_extend (v a : Version) (m n : Nat) :
    (v.extend m).same (a.extend n) = v.same a := by
  rw [Bool.eq_iff_iff, same_iff, same_iff, extend, extend, sequence_append_zeros,
    sequence_append_zeros]

theorem isDigit_or_point {c : Char} (h : c ∈ v.toChars) : c.isDigit = true ∨ c = '.' := by
  rcases Text.mem_join h with h | ⟨p, hp, hc⟩
  · exact .inr (List.mem_singleton.mp h)
  · obtain ⟨n, -, rfl⟩ := List.mem_map.mp hp
    exact .inl (Numeral.isDigit_of_mem_ofNat hc)

theorem IsProper.isWord (h : v.IsProper) : Text.IsWord v.toChars where
  ne_nil := by
    obtain ⟨n, ns, parts⟩ := List.exists_cons_of_ne_nil h.ne_nil
    rw [toChars, parts, List.map_cons]
    cases ns.map Numeral.ofNat with
    | nil => exact Numeral.ofNat_ne_nil n
    | cons p ps => simp [Text.join, Numeral.ofNat_ne_nil]
  solid := by
    intro c hc
    rcases isDigit_or_point hc with digit | rfl
    · exact Text.isBlank_of_isDigit digit
    · rfl

theorem readParts_map_ofNat {ns : List Nat} (h : ∀ n ∈ ns, n ≤ partLimit) :
    readParts (ns.map Numeral.ofNat) = .ok ns := by
  induction ns with
  | nil => rfl
  | cons n ns ih =>
    obtain ⟨first, rest⟩ := List.forall_mem_cons.mp h
    have solid : ∀ c ∈ Numeral.ofNat n, Text.isBlank c = false :=
      fun c hc => Text.isBlank_of_isDigit (Numeral.isDigit_of_mem_ofNat hc)
    have word : Text.IsWord (Numeral.ofNat n) := ⟨Numeral.ofNat_ne_nil n, solid⟩
    rw [List.map_cons, readParts, word.isTrim.trim_eq, Numeral.natural_ofNat first, ih rest]
    rfl

theorem ofChars_congr {s t : List Char} (h : Text.trim s = Text.trim t) :
    ofChars s = ofChars t := by
  rw [ofChars, ofChars, h]

theorem IsProper.ofChars_toChars (h : v.IsProper) : ofChars v.toChars = .ok v := by
  have plain : ∀ p ∈ v.parts.map Numeral.ofNat, '.' ∉ p := by
    intro p hp point
    obtain ⟨n, -, rfl⟩ := List.mem_map.mp hp
    exact absurd (Numeral.isDigit_of_mem_ofNat point) (by decide)
  have ne : v.parts.map Numeral.ofNat ≠ [] := fun none => h.ne_nil (List.map_eq_nil_iff.mp none)
  rw [ofChars, h.isWord.isTrim.trim_eq, if_neg (by simpa using h.isWord.ne_nil), toChars,
    Text.splitOn_join plain ne, readParts_map_ofNat h.inRange]

theorem not_suffix_of_solid {s w : List Char} (h : Text.IsWord s) (blank : ' ' ∈ w) : ¬w <:+ s := by
  intro suffix
  have solid := h.solid ' ' (suffix.subset blank)
  cases solid

section

variable (v) (ha : a.IsProper) (hb : b.IsProper)
include ha

theorem meets_toChars : v.meets a.toChars = .ok (v.same a) := by
  have newer := not_suffix_of_solid ha.isWord (w := "or newer".toList) (by decide)
  have older := not_suffix_of_solid ha.isWord (w := "or older".toList) (by decide)
  have space : ' ' ∉ a.toChars := fun hs => by cases ha.isWord.solid ' ' hs
  have uncut : Text.cutAt " to ".toList a.toChars = none := Text.cutAt_of_notMem space
  rw [meets, ha.isWord.isTrim.trim_eq, Text.dropSuffix?_eq_none_iff.mpr newer,
    Text.dropSuffix?_eq_none_iff.mpr older, uncut]
  simp only [ha.ofChars_toChars, Except.map]

theorem ofChars_toChars_space : ofChars (a.toChars ++ [' ']) = .ok a := by
  rw [← ha.ofChars_toChars]
  apply ofChars_congr
  obtain ⟨c, s, chars⟩ := List.exists_cons_of_ne_nil ha.isWord.ne_nil
  have solid := ha.isWord.solid c (by rw [chars]; exact List.mem_cons_self)
  rw [Text.trim, Text.trim, chars, List.cons_append, Text.trimStart_cons solid,
    Text.trimStart_cons solid, ← List.cons_append, Text.trimEnd_concat_blank (by rfl)]

theorem meets_newer : v.meets (a.toChars ++ " or newer".toList) = .ok (a.atMost v) := by
  have trimmed : Text.IsTrim (a.toChars ++ " or newer".toList) :=
    ha.isWord.isTrim.append ha.isWord.ne_nil (by decide) (by decide)
  have newer : Text.dropSuffix? "or newer".toList (a.toChars ++ " or newer".toList) =
      some (a.toChars ++ [' ']) := Text.dropSuffix?_eq_some_iff.mpr (by simp)
  rw [meets, trimmed.trim_eq, newer]
  simp only [ofChars_toChars_space ha, Except.map]

theorem meets_older : v.meets (a.toChars ++ " or older".toList) = .ok (v.atMost a) := by
  have trimmed : Text.IsTrim (a.toChars ++ " or older".toList) :=
    ha.isWord.isTrim.append ha.isWord.ne_nil (by decide) (by decide)
  have notNewer : ¬"or newer".toList <:+ a.toChars ++ " or older".toList := by
    rintro ⟨t, same⟩
    have older : a.toChars ++ " or older".toList = (a.toChars ++ [' ']) ++ "or older".toList := by
      simp
    exact absurd (List.append_inj_right' (same.trans older) (by decide)) (by decide)
  have older : Text.dropSuffix? "or older".toList (a.toChars ++ " or older".toList) =
      some (a.toChars ++ [' ']) := Text.dropSuffix?_eq_some_iff.mpr (by simp)
  rw [meets, trimmed.trim_eq, Text.dropSuffix?_eq_none_iff.mpr notNewer, older]
  simp only [ofChars_toChars_space ha, Except.map]

include hb

theorem meets_span : v.meets (a.toChars ++ " to ".toList ++ b.toChars) =
    .ok (a.atMost v && v.atMost b) := by
  have trimmed : Text.IsTrim (a.toChars ++ " to ".toList ++ b.toChars) := by
    rw [List.append_assoc]
    refine ha.isWord.isTrim.append ha.isWord.ne_nil ?_ (by simp)
    exact Text.trimEnd_append hb.isWord.isTrim.finish hb.isWord.ne_nil _
  -- both words end in a letter, and a version does not
  have noWord : ∀ w : List Char, w.getLast? = some 'r' →
      ¬w <:+ a.toChars ++ " to ".toList ++ b.toChars := by
    rintro w last ⟨t, same⟩
    have ends := congrArg List.getLast? same
    rw [List.getLast?_append, last, List.getLast?_append,
      List.getLast?_eq_some_getLast hb.isWord.ne_nil] at ends
    have letter : b.toChars.getLast hb.isWord.ne_nil = 'r' := (Option.some.inj ends).symm
    have digit := isDigit_or_point (List.getLast_mem hb.isWord.ne_nil)
    rw [letter] at digit
    exact absurd digit (by decide)
  have space : ' ' ∉ a.toChars := fun hs => by cases ha.isWord.solid ' ' hs
  have parted : Text.cutAt " to ".toList (a.toChars ++ " to ".toList ++ b.toChars) =
      some (a.toChars, b.toChars) := by
    rw [List.append_assoc]
    exact Text.cutAt_append space b.toChars
  rw [meets, trimmed.trim_eq, Text.dropSuffix?_eq_none_iff.mpr (noWord _ (by decide)),
    Text.dropSuffix?_eq_none_iff.mpr (noWord _ (by decide)), parted]
  simp only [ha.ofChars_toChars, hb.ofChars_toChars, Except.map]

end

theorem same_eq (a b : Version) : a.same b = (b.atMost a && a.atMost b) := by
  rw [Bool.eq_iff_iff, Bool.and_eq_true, same_iff, atMost_iff, atMost_iff]
  exact ⟨fun same => ⟨same.ge, same.le⟩, fun both => le_antisymm both.2 both.1⟩

/-- Versions are in a total order up to zeros behind their parts, and specifications hold by this
order. -/
theorem totalOrder_and_meets :
    (∀ a : Version, a.atMost a = true) ∧
    (∀ a b c : Version, a.atMost b = true → b.atMost c = true → a.atMost c = true) ∧
    (∀ a b : Version, a.atMost b = true ∧ b.atMost a = true ↔ a.same b = true) ∧
    (∀ a b : Version, a.atMost b = true ∨ b.atMost a = true) ∧
    (∀ a b : Version, b.compare a = (a.compare b).swap) ∧
    (∀ a b : Version, a.same b = true ↔
      ∃ m n, a.parts ++ List.replicate m 0 = b.parts ++ List.replicate n 0) ∧
    ∀ v a b : Version, v.IsReadable → a.IsReadable → b.IsReadable → ∀ i j k : Nat,
      ∃ w, ofChars (v.extendedText i) = .ok w ∧
        w.meets (a.extendedText j ++ " or newer".toList) = .ok (a.atMost v) ∧
        w.meets (b.extendedText k ++ " or older".toList) = .ok (v.atMost b) ∧
        w.meets (a.extendedText j ++ " to ".toList ++ b.extendedText k) =
          .ok (a.atMost v && v.atMost b) ∧
        w.meets (a.extendedText j) = .ok (a.atMost v && v.atMost a) := by
  refine ⟨fun a => atMost_iff.mpr le_rfl, fun a b c hab hbc => ?_, fun a b => ?_, fun a b => ?_,
    compare_swap, fun a b => same_iff.trans sequence_eq_iff, fun v a b hv ha hb i j k => ?_⟩
  · exact atMost_iff.mpr ((atMost_iff.mp hab).trans (atMost_iff.mp hbc))
  · rw [same_eq, Bool.and_eq_true, and_comm]
  · exact (le_total (sequence a.parts) (sequence b.parts)).imp atMost_iff.mpr atMost_iff.mpr
  · have hv := hv.isProper
    have ha := ha.isProper
    have hb := hb.isProper
    refine ⟨v.extend i, ?_, ?_, ?_, ?_, ?_⟩
    · rw [← hv.toChars_extend, (hv.extend i).ofChars_toChars]
    · rw [← ha.toChars_extend, meets_newer _ (ha.extend j), atMost_extend]
    · rw [← hb.toChars_extend, meets_older _ (hb.extend k), atMost_extend]
    · rw [← ha.toChars_extend, ← hb.toChars_extend, meets_span _ (ha.extend j) (hb.extend k),
        atMost_extend, atMost_extend]
    · rw [← ha.toChars_extend, meets_toChars _ (ha.extend j), same_extend, same_eq]

theorem totalOrder_and_meets_of_zeros :
    (⟨[1, 16, 5]⟩ : Version).IsReadable ∧ (⟨[1, 16]⟩ : Version).IsReadable ∧
      (⟨[1, 17]⟩ : Version).IsReadable ∧
      ∃ w, ofChars "1.16.5.0".toList = .ok w ∧
        w.meets "1.16.0.0 or newer".toList = .ok true ∧
        w.meets "1.17 or older".toList = .ok true ∧
        w.meets "1.16.0.0 to 1.17".toList = .ok true ∧
        w.meets "1.16.0.0".toList = .ok false := by
  have readable (ns : List Nat) (h : ofChars (toChars ⟨ns⟩) = .ok ⟨ns⟩) : IsReadable ⟨ns⟩ := ⟨_, h⟩
  have v := readable [1, 16, 5] (by decide +kernel)
  have a := readable [1, 16] (by decide +kernel)
  have b := readable [1, 17] (by decide +kernel)
  obtain ⟨-, -, -, -, -, -, meets⟩ := totalOrder_and_meets
  exact ⟨v, a, b, meets _ _ _ v a b 1 2 0⟩

end Version

end ItemLexicon
