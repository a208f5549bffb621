import ItemLexicon.Resolution.Enchantments
import Mathlib.Algebra.Group.Nat.Defs
import Mathlib.Data.List.Basic

namespace ItemLexicon

namespace Roman

/-- The numeral comes to the tally, and every end of it is tallied without going above the limit. -/
structure Counts (limit : Nat) (s : List Char) (y : Tally) : Prop where
  tally : tally s = some y
  bounded : ∀ t, t <:+ s → ∃ z, Roman.tally t = some z ∧ z.total ≤ limit

theorem toLower_toLower (c : Char) : c.toLower.toLower = c.toLower := by
  by_cases upper : c.val ≥ 'A'.val ∧ c.val ≤ 'Z'.val
  · have low : c.toLower.val = c.val + 32 := congrArg Char.val (dif_pos upper)
    refine dif_neg fun again => ?_
    rw [low] at again
    simp only [Char.reduceVal, ge_iff_le, UInt32.le_iff_toNat_le, UInt32.toNat_add,
      UInt32.reduceToNat] at again upper
    omega
  · have same : c.toLower = c := dif_neg upper
    rw [same, same]

theorem letter?_toLower (c : Char) : letter? c.toLower = letter? c := by
  rw [letter?, letter?, toLower_toLower]

theorem tally_map_toLower (s : List Char) : tally (s.map Char.toLower) = tally s := by
  induction s with
  | nil => rfl
  | cons c s ih => rw [List.map_cons, tally, tally, ih, letter?_toLower]

theorem read?_of_tally {s : List Char} {y : Tally} (h : tally s = some y) (pos : 0 < y.total) :
    read? s = some y.total := by
  simp only [read?, h, if_pos pos]

namespace Counts

variable {limit v : Nat} {s : List Char} {c : Char} {y : Tally}

theorem nil (limit : Nat) : Counts limit [] ⟨0, 0⟩ where
  tally := rfl
  bounded := by
    intro t ht
    rw [List.suffix_nil.mp ht]
    exact ⟨_, rfl, Nat.zero_le limit⟩

theorem cons {z : Tally} (h : Counts limit s y) (letter : letter? c = some v)
    (add : y.add v = some z) (le : z.total ≤ limit) : Counts limit (c :: s) z := by
  have whole : Roman.tally (c :: s) = some z := by simp only [Roman.tally, h.tally, letter, add]
  refine ⟨whole, fun t ht => ?_⟩
  rcases List.suffix_cons_iff.mp ht with rfl | ht
  · exact ⟨z, whole, le⟩
  · exact h.bounded t ht

theorem raise (h : Counts limit s y) (letter : letter? c = some v) (large : y.largest ≤ v)
    (le : y.total + v ≤ limit) : Counts limit (c :: s) ⟨y.total + v, v⟩ :=
  h.cons letter (if_neg (Nat.not_lt.mpr large)) le

theorem lower (h : Counts limit s y) (letter : letter? c = some v) (small : v < y.largest)
    (enough : v ≤ y.total) : Counts limit (c :: s) ⟨y.total - v, y.largest⟩ := by
  obtain ⟨z, known, le⟩ := h.bounded s List.suffix_rfl
  cases known.symm.trans h.tally
  refine h.cons letter ?_ (Nat.le_trans (Nat.sub_le ..) le)
  rw [Tally.add, if_pos small, if_pos enough]

theorem repeated (h : Counts limit s y) (letter : letter? c = some v) (small : y.largest ≤ v)
    {k : Nat} (room : y.total + k * v ≤ limit) : ∃ z, Counts limit (List.replicate k c ++ s) z ∧
      z.total = y.total + k * v ∧ z.largest ≤ v := by
  induction k with
  | zero => exact ⟨y, h, by rw [Nat.zero_mul, Nat.add_zero], small⟩
  | succ k ih =>
    rw [Nat.succ_mul, ← Nat.add_assoc] at room
    obtain ⟨z, counts, total, largest⟩ := ih (by omega)
    refine ⟨_, counts.raise letter largest (by omega), ?_, Nat.le_refl v⟩
    rw [total, Nat.succ_mul, Nat.add_assoc]

theorem subtractive (h : Counts limit s y) (pos : 0 < v) {one : Char}
    (hone : letter? one = some v) {k : Nat} (many : 1 < k) (letter : letter? c = some (k * v))
    (small : y.largest ≤ v) (room : y.total + k * v ≤ limit) :
    Counts limit (one :: c :: s) ⟨y.total + (k - 1) * v, k * v⟩ := by
  have less : 1 * v < k * v := Nat.mul_lt_mul_of_pos_right many pos
  rw [Nat.one_mul] at less
  have larger := h.raise letter (by omega) room
  have counts := larger.lower hone less (Nat.le_add_left_of_le (Nat.le_of_lt less))
  rwa [Nat.add_sub_assoc (Nat.le_of_lt less), ← Nat.sub_one_mul] at counts

theorem digit (h : Counts limit s y) (one five ten : Char) (pos : 0 < v)
    (hone : letter? one = some v) (hfive : letter? five = some (5 * v))
    (hten : letter? ten = some (10 * v)) (small : y.largest ≤ v)
    (room : y.total + 10 * v ≤ limit) {d : Nat} (hd : d < 10) :
    ∃ z, Counts limit (digitText one five ten d ++ s) z ∧ z.total = y.total + d * v ∧
      z.largest ≤ 10 * v := by
  have units {k : Nat} (hk : k ≤ 3) : ∃ z, Counts limit (List.replicate k one ++ s) z ∧
      z.total = y.total + k * v ∧ z.largest ≤ v := by
    have few : k * v ≤ 3 * v := Nat.mul_le_mul_right v hk
    exact h.repeated hone small (by omega)
  have low {k : Nat} (hk : k ≤ 3) : ∃ z, Counts limit (List.replicate k one ++ s) z ∧
      z.total = y.total + k * v ∧ z.largest ≤ 10 * v := by
    obtain ⟨z, counts, total, largest⟩ := units hk
    exact ⟨z, counts, total, by omega⟩
  have high {k : Nat} (hk : k ≤ 3) : ∃ z,
      Counts limit (five :: (List.replicate k one ++ s)) z ∧
        z.total = y.total + (5 + k) * v ∧ z.largest ≤ 10 * v := by
    obtain ⟨z, counts, total, largest⟩ := units hk
    have few : k * v ≤ 3 * v := Nat.mul_le_mul_right v hk
    refine ⟨_, counts.raise hfive (by omega) (by omega), ?_, Nat.mul_le_mul_right v (by decide)⟩
    rw [total, Nat.add_mul, Nat.add_assoc, Nat.add_comm (k * v)]
  match d, hd with
  | 0, _ => exact low (k := 0) (by decide)
  | 1, _ => exact low (k := 1) (by decide)
  | 2, _ => exact low (k := 2) (by decide)
  | 3, _ => exact low (k := 3) (by decide)
  | 4, _ =>
    have five := h.subtractive pos hone (by decide) hfive small (by omega)
    exact ⟨_, five, rfl, Nat.mul_le_mul_right v (by decide)⟩
  | 5, _ => exact high (k := 0) (by decide)
  | 6, _ => exact high (k := 1) (by decide)
  | 7, _ => exact high (k := 2) (by decide)
  | 8, _ => exact high (k := 3) (by decide)
  | 9, _ => exact ⟨_, h.subtractive pos hone (by decide) hten small room, rfl, Nat.le_refl _⟩

theorem write {n : Nat} (le : n ≤ limit) (room : 109 ≤ limit) :
    ∃ y, Counts limit (Roman.write n) y ∧ y.total = n := by
  obtain ⟨y, units, ofUnits, largest⟩ := (nil limit).digit 'i' 'v' 'x' Nat.one_pos
    rfl rfl rfl (Nat.zero_le 1) (by dsimp only; omega) (Nat.mod_lt n (by decide))
  have small : n % 10 < 10 := Nat.mod_lt n (by decide)
  dsimp only at ofUnits
  obtain ⟨y', tens, ofTens, largest'⟩ := units.digit (v := 10) 'x' 'l' 'c' (by decide)
    rfl rfl rfl largest (by omega) (Nat.mod_lt (n / 10) (by decide))
  obtain ⟨z, hundreds, total, -⟩ := tens.repeated (v := 100) (c := 'c') (k := n / 100) rfl largest'
    (by omega)
  refine ⟨z, ?_, by omega⟩
  rwa [List.append_nil, ← List.append_assoc] at hundreds

end Counts

theorem isDigit_of_letter? {c : Char} {v : Nat} (letter : letter? c = some v) :
    c.isDigit = false := by
  rw [Bool.eq_false_iff]
  intro digit
  have same : c.toLower = c := by
    refine dif_neg fun upper => ?_
    simp only [Char.isDigit, Bool.and_eq_true, decide_eq_true_eq, Char.reduceVal, ge_iff_le,
      UInt32.le_iff_toNat_le, UInt32.reduceToNat] at digit upper
    omega
  rw [letter?, same] at letter
  split at letter <;> first | cases digit | cases letter

theorem natural_cons {c : Char} {v : Nat} (letter : letter? c = some v) (limit : Nat)
    (s : List Char) : Numeral.natural limit (c :: s) = .error .invalidDigit := by
  have unsigned : c ≠ '+' := by
    rintro rfl
    cases letter
  have digits : Numeral.natural limit (c :: s) = Numeral.digitsAfter limit 0 (c :: s) := by
    rw [Numeral.natural]
    · exact fun sign _ => unsigned sign
    · exact unsigned
  rw [digits, Numeral.digitsAfter, Numeral.digit?, isDigit_of_letter? letter]
  rfl

theorem letter?_of_tally {c : Char} {s : List Char} {y : Tally} (h : tally (c :: s) = some y) :
    ∃ v, letter? c = some v := by
  rw [tally] at h
  split at h
  · rename_i letter
    exact ⟨_, letter⟩
  · cases h

end Roman

namespace Enchantment

/-- A level is read back from its decimal numeral and from its Roman one in letters of either case,
without a total that leaves 32 bits. -/
theorem level?_numerals {n : Nat} (pos : 1 ≤ n) (lt : n < 2 ^ 32) :
    level? (Numeral.ofNat n) = some n ∧
      ∀ s, s.map Char.toLower = Roman.write n → level? s = some n ∧
        ∀ t, t <:+ s → ∃ y, Roman.tally t = some y ∧ y.total < 2 ^ 32 := by
  have le : n ≤ maxLevel := Nat.le_sub_one_of_lt lt
  refine ⟨by rw [level?, Numeral.natural_ofNat le], fun s same => ?_⟩
  obtain ⟨y, counts, rfl⟩ := Roman.Counts.write le (by decide)
  have known : Roman.tally s = some y := by rw [← Roman.tally_map_toLower, same, counts.tally]
  constructor
  · cases s with
    | nil =>
      cases known
      cases pos
    | cons c s =>
      obtain ⟨v, letter⟩ := Roman.letter?_of_tally known
      rw [level?, Roman.natural_cons letter]
      exact Roman.read?_of_tally known pos
  · intro t ht
    obtain ⟨z, tallied, bound⟩ := counts.bounded (t.map Char.toLower) (same ▸ ht.map Char.toLower)
    rw [Roman.tally_map_toLower] at tallied
    exact ⟨z, tallied, Nat.lt_of_le_of_lt bound (by decide)⟩

theorem level?_numerals_of_capitals :
    let s := "CCxLiX".toList
    s.map Char.toLower = Roman.write 249 ∧ level? "249".toList = some 249 ∧
      level? s = some 249 ∧ ∃ y, Roman.tally "LiX".toList = some y ∧ y.total < 2 ^ 32 := by
  intro s
  obtain ⟨decimal, roman⟩ := level?_numerals (n := 249) (by decide) (by decide)
  have same : s.map Char.toLower = Roman.write 249 := by decide
  obtain ⟨read, ends⟩ := roman s same
  exact ⟨same, decimal, read, ends _ (by decide)⟩

end Enchantment

end ItemLexicon
