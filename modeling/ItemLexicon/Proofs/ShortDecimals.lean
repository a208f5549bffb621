import ItemLexicon.Proofs.NumberReadings
import Mathlib.Algebra.Group.Nat.Defs

namespace ItemLexicon.Binary64

theorem scaled_mul (num den c : Nat) (e : Int) :
    scaled (num * c) (den * c) e = ((scaled num den e).1 * c, (scaled num den e).2 * c) := by
  cases e with
  | ofNat k => rw [scaled, scaled, Nat.mul_right_comm]
  | negSucc k => rw [scaled, scaled, Nat.mul_right_comm]

theorem roundDiv_mul (num den : Nat) {c : Nat} (pos : 0 < c) :
    roundDiv (num * c) (den * c) = roundDiv num den := by
  have rest : 2 * (num % den * c) = 2 * (num % den) * c := (Nat.mul_assoc _ _ _).symm
  have above : den * c < 2 * (num % den) * c ↔ den < 2 * (num % den) :=
    Nat.mul_lt_mul_right pos
  have half : (den * c == 2 * (num % den) * c) = (den == 2 * (num % den)) := by
    rw [Bool.eq_iff_iff, beq_iff_eq, beq_iff_eq]
    exact Nat.mul_left_inj (Nat.pos_iff_ne_zero.mp pos)
  rw [roundDiv, roundDiv, Nat.mul_div_mul_right _ _ pos, Nat.mul_mod_mul_right, rest]
  simp only [above, half]

theorem log2_mul_pow {n : Nat} (ne : n ≠ 0) (s : Nat) : (n * 2 ^ s).log2 = n.log2 + s := by
  have pos := Nat.two_pow_pos s
  have ne' : n * 2 ^ s ≠ 0 := Nat.mul_ne_zero ne (Nat.pos_iff_ne_zero.mp pos)
  rw [Nat.log2_eq_iff ne', Nat.add_right_comm, Nat.pow_add, Nat.pow_add 2 (n.log2 + 1)]
  exact ⟨Nat.mul_le_mul_right _ (Nat.log2_self_le ne),
    Nat.mul_lt_mul_of_pos_right Nat.lt_log2_self pos⟩

theorem exponentFor_mul_pow {num den : Nat} (hn : num ≠ 0) (hd : den ≠ 0) (s : Nat) :
    exponentFor (num * 2 ^ s) (den * 2 ^ s) = exponentFor num den := by
  have same : ((num.log2 + s : Nat) : Int) - ((den.log2 + s : Nat) : Int) - 52 =
      (num.log2 : Int) - (den.log2 : Int) - 52 := by omega
  rw [exponentFor, exponentFor, log2_mul_pow hn, log2_mul_pow hd, same, scaled_mul]
  dsimp only
  rw [Nat.mul_div_mul_right _ _ (Nat.two_pow_pos s)]

theorem ofFraction?_mul_pow {negative : Bool} {num den : Nat} (hd : den ≠ 0) (s : Nat) :
    ofFraction? negative (num * 2 ^ s) (den * 2 ^ s) = ofFraction? negative num den := by
  by_cases hn : num = 0
  · rw [hn, Nat.zero_mul, ofFraction?, ofFraction?, if_pos rfl, if_pos rfl]
  · have pos := Nat.two_pow_pos s
    have hn' := Nat.mul_ne_zero hn (Nat.pos_iff_ne_zero.mp pos)
    rw [ofFraction?, ofFraction?, if_neg hn, if_neg hn', exponentFor_mul_pow hn hd]
    dsimp only
    rw [scaled_mul]
    dsimp only
    rw [roundDiv_mul _ _ pos]

theorem ofFraction?_congr {negative : Bool} {num den num' den' s t : Nat} (hd : den ≠ 0)
    (hd' : den' ≠ 0) (nums : num * 2 ^ s = num' * 2 ^ t) (dens : den * 2 ^ s = den' * 2 ^ t) :
    ofFraction? negative num den = ofFraction? negative num' den' := by
  rw [← ofFraction?_mul_pow hd s, nums, dens, ofFraction?_mul_pow hd']

theorem ofFraction?_negative (negative : Bool) (num den : Nat) :
    (ofFraction? false num den).map (fun x => { x with negative := negative }) =
      ofFraction? negative num den := by
  rw [ofFraction?, ofFraction?]
  dsimp only
  split
  · rfl
  · split
    · split <;> rfl
    · split <;> rfl

structure IsExact (x : Binary64) (k : Nat) : Prop where
  positive : x.negative = false
  value : ∃ a b : Nat, x.significand * 2 ^ a = k * 2 ^ b ∧ x.exponent = a - b

theorem exists_fraction (m : Nat) {e : Int} {a b : Nat} (he : e = a - b) :
    ∃ s, (fraction m e).1 * 2 ^ s = m * 2 ^ a ∧ (fraction m e).2 * 2 ^ s = 2 ^ b := by
  cases e with
  | ofNat k =>
    have whole : a = k + b := by
      rw [Int.ofNat_eq_natCast] at he
      omega
    refine ⟨b, ?_, Nat.one_mul _⟩
    change m * 2 ^ k * 2 ^ b = m * 2 ^ a
    rw [whole, Nat.pow_add, ← Nat.mul_assoc]
  | negSucc k =>
    have part : b = k + 1 + a := by
      rw [Int.negSucc_eq] at he
      omega
    refine ⟨a, rfl, ?_⟩
    change 2 ^ (k + 1) * 2 ^ a = 2 ^ b
    rw [part, Nat.pow_add _ (k + 1)]

theorem fraction_snd_ne_zero (m : Nat) (e : Int) : (fraction m e).2 ≠ 0 := by
  cases e with
  | ofNat k => exact Nat.one_ne_zero
  | negSucc k => exact Nat.pos_iff_ne_zero.mp (Nat.two_pow_pos _)

variable {x y : Binary64} {k l : Nat}

theorem IsExact.mul?_eq (hx : x.IsExact k) (hy : y.IsExact l) :
    x.mul? y = ofFraction? false (k * l) 1 := by
  obtain ⟨positive, a, b, same, exponent⟩ := hx
  obtain ⟨positive', a', b', same', exponent'⟩ := hy
  have sum : x.exponent + y.exponent = (a + a' : Nat) - (b + b' : Nat) := by omega
  obtain ⟨s, nums, dens⟩ := exists_fraction (x.significand * y.significand) sum
  rw [mul?, positive, positive']
  refine ofFraction?_congr (fraction_snd_ne_zero _ _) Nat.one_ne_zero ?_
    (dens.trans (Nat.one_mul _).symm)
  calc
    _ = x.significand * y.significand * 2 ^ (a + a') := nums
    _ = x.significand * 2 ^ a * (y.significand * 2 ^ a') := by
      rw [Nat.pow_add, Nat.mul_mul_mul_comm]
    _ = k * 2 ^ b * (l * 2 ^ b') := by rw [same, same']
    _ = k * l * 2 ^ (b + b') := by rw [Nat.pow_add, Nat.mul_mul_mul_comm]

theorem IsExact.div?_eq (hx : x.IsExact k) (hy : y.IsExact l) (hl : l ≠ 0) :
    x.div? y = ofFraction? false k l := by
  obtain ⟨positive, a, b, same, exponent⟩ := hx
  obtain ⟨positive', a', b', same', exponent'⟩ := hy
  have difference : x.exponent - y.exponent = (a + b' : Nat) - (b + a' : Nat) := by omega
  obtain ⟨s, nums, dens⟩ := exists_fraction x.significand difference
  have filled : y.significand ≠ 0 := by
    intro zero
    rw [zero, Nat.zero_mul] at same'
    exact Nat.mul_ne_zero hl (Nat.pos_iff_ne_zero.mp (Nat.two_pow_pos b')) same'.symm
  rw [div?, positive, positive']
  refine ofFraction?_congr (s := s) (t := b + b')
    (Nat.mul_ne_zero (fraction_snd_ne_zero _ _) filled) hl ?_ ?_
  · calc
      _ = x.significand * 2 ^ (a + b') := nums
      _ = x.significand * 2 ^ a * 2 ^ b' := by rw [Nat.pow_add, Nat.mul_assoc]
      _ = k * 2 ^ b * 2 ^ b' := by rw [same]
      _ = k * 2 ^ (b + b') := by rw [Nat.pow_add, Nat.mul_assoc]
  · calc
      _ = (fraction x.significand (x.exponent - y.exponent)).2 * 2 ^ s * y.significand :=
        Nat.mul_right_comm _ _ _
      _ = 2 ^ b * (y.significand * 2 ^ a') := by
        rw [dens, Nat.pow_add, Nat.mul_assoc, Nat.mul_comm (2 ^ a')]
      _ = 2 ^ b * (l * 2 ^ b') := by rw [same']
      _ = l * 2 ^ (b + b') := by rw [Nat.pow_add, Nat.mul_left_comm]

theorem isExact_zero : (zero false).IsExact 0 :=
  ⟨rfl, 0, 1074, (Nat.zero_mul _).trans (Nat.zero_mul _).symm, rfl⟩

theorem roundDiv_one (n : Nat) : roundDiv n 1 = n := by
  rw [roundDiv, Nat.div_one, Nat.mod_one]
  rfl

theorem exists_isExact_ofNat? (h : k < 2 ^ 53) : ∃ x, ofNat? k = some x ∧ x.IsExact k := by
  by_cases hk : k = 0
  · subst hk
    exact ⟨zero false, rfl, isExact_zero⟩
  · have size : k.log2 < 53 := (Nat.log2_lt hk).mpr h
    obtain ⟨c, sum⟩ : ∃ c, k.log2 + c = 52 := ⟨52 - k.log2, by omega⟩
    have low : 2 ^ 52 ≤ k * 2 ^ c := by
      calc
        2 ^ 52 = 2 ^ k.log2 * 2 ^ c := by rw [← Nat.pow_add, sum]
        _ ≤ k * 2 ^ c := Nat.mul_le_mul_right _ (Nat.log2_self_le hk)
    have high : k * 2 ^ c < 2 ^ 53 := by
      calc
        k * 2 ^ c < 2 ^ (k.log2 + 1) * 2 ^ c :=
          Nat.mul_lt_mul_of_pos_right Nat.lt_log2_self (Nat.two_pow_pos c)
        _ = 2 ^ 53 := by rw [← Nat.pow_add, Nat.add_right_comm, sum]
    -- The digits have at most 53 bits, so the first guess of the exponent is right.
    have guess : (k.log2 : Int) - (Nat.log2 1 : Nat) - 52 = -c := by
      have none : Nat.log2 1 = 0 := rfl
      omega
    have whole : scaled k 1 (-c) = (k * 2 ^ c, 1) := by
      cases c with
      | zero => exact Prod.ext (Nat.mul_one k).symm rfl
      | succ c => rfl
    have exponent : exponentFor k 1 = -c := by
      rw [exponentFor, guess, whole]
      dsimp only
      have enough : ¬k * 2 ^ c < Nat.pow 2 52 := Nat.not_lt.mpr low
      rw [Nat.div_one, if_neg enough, minExponent]
      omega
    have read : ofNat? k = some ⟨false, k * 2 ^ c, -c⟩ := by
      have below : k * 2 ^ c ≠ Nat.pow 2 53 := Nat.ne_of_lt high
      have small : -(c : Int) ≤ maxExponent := by
        rw [maxExponent]
        omega
      rw [ofNat?, ofFraction?, if_neg hk, exponent]
      dsimp only
      rw [whole]
      dsimp only
      rw [roundDiv_one, if_neg below, if_pos small]
    exact ⟨_, read, rfl, 0, c, Nat.mul_one _, (Int.zero_sub _).symm⟩

theorem exists_isExact_power {j : Nat} (h : j ≤ 22) :
    ∃ x, Json.NumberText.power j = some x ∧ x.IsExact (10 ^ j) := by
  have each : ∀ j < 23, (Json.NumberText.power j).any fun x => !x.negative &&
      x.significand * 2 ^ x.exponent.toNat == 10 ^ j * 2 ^ (-x.exponent).toNat := by
    decide +kernel
  obtain ⟨x, power, exact⟩ := (Option.any_eq_true _ _).mp (each j (Nat.lt_succ_of_le h))
  rw [Bool.and_eq_true, Bool.not_eq_true', beq_iff_eq] at exact
  exact ⟨x, power, exact.1, _, _, exact.2, by omega⟩

theorem ofDecimal?_negative (negative : Bool) (digits : Nat) (e : Int) :
    (ofDecimal? false digits e).map (fun x => { x with negative := negative }) =
      ofDecimal? negative digits e := by
  rw [ofDecimal?.eq_def, ofDecimal?.eq_def negative]
  dsimp only
  split
  · rfl
  · split
    · rfl
    · split
      · rfl
      · split
        · exact ofFraction?_negative _ _ _
        · exact ofFraction?_negative _ _ _

theorem ofDecimal?_eq {m : Nat} {e : Int} (hm : m < 2 ^ 53) (least : -22 ≤ e) (greatest : e ≤ 22) :
    ofDecimal? false m e = match e with
      | .ofNat k => ofFraction? false (m * 10 ^ k) 1
      | .negSucc k => ofFraction? false m (10 ^ (k + 1)) := by
  by_cases hz : m = 0
  · subst hz
    rw [ofDecimal?.eq_def, if_pos rfl]
    split
    · rw [Nat.zero_mul]
      rfl
    · rfl
  · have length : (Numeral.ofNat m).length ≤ 16 :=
      (Nat.length_toDigits_le_iff (by decide) (by decide)).mpr (Nat.lt_trans hm (by decide))
    rw [ofDecimal?.eq_def, if_neg hz]
    dsimp only
    rw [if_neg (by omega), if_neg (by omega)]
    split <;> rfl

theorem scale?_eq {m : Nat} {e : Int} (hm : m < 2 ^ 53) (least : -22 ≤ e) (greatest : e ≤ 22) :
    Json.NumberText.scale? m e = ofDecimal? false m e := by
  obtain ⟨x, read, exact⟩ := exists_isExact_ofNat? hm
  rw [ofDecimal?_eq hm least greatest, Json.NumberText.scale?, read]
  cases e with
  | ofNat k =>
    have bound : k ≤ 22 := by
      rw [Int.ofNat_eq_natCast] at greatest
      omega
    obtain ⟨y, power, exact'⟩ := exists_isExact_power bound
    have single : k ≤ Json.NumberText.maxPower := Nat.le_trans bound (by decide)
    dsimp only
    rw [if_pos single, power, Option.bind_some, exact.mul?_eq exact']
  | negSucc k =>
    have bound : k + 1 ≤ 22 := by
      rw [Int.negSucc_eq] at least
      omega
    obtain ⟨y, power, exact'⟩ := exists_isExact_power bound
    have single : k + 1 ≤ Json.NumberText.maxPower := Nat.le_trans bound (by decide)
    have ten : 10 ^ (k + 1) ≠ 0 := Nat.pos_iff_ne_zero.mp (Nat.pow_pos (by decide))
    dsimp only
    rw [Json.NumberText.divideByPower, if_pos single, power, Option.bind_some,
      exact.div?_eq exact' ten]

end ItemLexicon.Binary64

namespace ItemLexicon.Json.NumberText

open Tag (digitsFrom)

def digits (n : NumberText) : Nat := Tag.digitsValue (n.whole ++ n.fraction.getD [])

def scale (n : NumberText) : Int := exponentValue n.exponent - (n.fraction.getD []).length

theorem float?_eq_nearest? {n : NumberText} (short : n.digits < 2 ^ 53) (least : -22 ≤ n.scale)
    (greatest : n.scale ≤ 22) : n.float? = n.nearest? := by
  have split : digitsFrom (digitsFrom 0 n.whole) (n.fraction.getD []) = n.digits := by
    rw [digits, Tag.digitsValue, List.foldl_append]
    rfl
  have all : digitsFrom (digitsFrom 0 n.whole) (n.fraction.getD []) < wordLimit := by
    rw [split]
    exact Nat.lt_trans short (by decide)
  have front : digitsFrom 0 n.whole < wordLimit :=
    Nat.lt_of_le_of_lt (Tag.le_digitsFrom _ _) all
  have exponent : ((0 : Nat) : Int) - (((n.fraction.getD []).length - 0 : Nat) : Int) +
      exponentValue n.exponent = n.scale := by
    rw [scale]
    omega
  rw [float?, extend_eq front]
  dsimp only
  rw [extend_eq all, split]
  dsimp only
  rw [exponent, Binary64.scale?_eq short least greatest, Binary64.ofDecimal?_negative]
  rfl

theorem readsAlike_of_short {n : NumberText} (point : ¬n.IsWhole) (short : n.digits < 2 ^ 53)
    (least : -22 ≤ n.scale) (greatest : n.scale ≤ 22) : n.ReadsAlike :=
  .float (fun whole => absurd whole point) (float?_eq_nearest? short least greatest)

end ItemLexicon.Json.NumberText
