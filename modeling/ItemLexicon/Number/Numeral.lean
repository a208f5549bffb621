namespace ItemLexicon

inductive NumeralError
  | empty
  | invalidDigit
  | tooLarge
  deriving DecidableEq

namespace NumeralError

def message : NumeralError → String
  | empty => "cannot parse integer from empty string"
  | invalidDigit => "invalid digit found in string"
  | tooLarge => "number too large to fit in target type"

end NumeralError

namespace Numeral

def digit? (c : Char) : Option Nat :=
  if c.isDigit then some (c.toNat - 48) else none

/-- Reads digits after those that already make up `value`, as long as the result stays at or below
`limit`. -/
def digitsAfter (limit value : Nat) : List Char → Except NumeralError Nat
  | [] => .ok value
  | c :: s =>
    match digit? c with
    | none => .error .invalidDigit
    | some d =>
      if limit < 10 * value + d then .error .tooLarge
      else digitsAfter limit (10 * value + d) s

def natural (limit : Nat) : List Char → Except NumeralError Nat
  | [] => .error .empty
  | ['+'] => .error .invalidDigit
  | '+' :: s => digitsAfter limit 0 s
  | c :: s => digitsAfter limit 0 (c :: s)

def integer (limit : Nat) : List Char → Except NumeralError Int
  | ['-'] => .error .invalidDigit
  | '-' :: s => (digitsAfter (limit + 1) 0 s).map fun n => -(n : Int)
  | s => (natural limit s).map Int.ofNat

def ofNat (n : Nat) : List Char := Nat.toDigits 10 n

theorem digit?_digitChar {d : Nat} (h : d < 10) : digit? (Nat.digitChar d) = some d := by
  rw [digit?, Nat.isDigit_digitChar, decide_eq_true h, if_pos rfl,
    Nat.toNat_digitChar_sub_48_of_lt_ten h]

theorem digitsAfter_append_singleton {limit value n d : Nat} {s : List Char} {c : Char}
    (h : digitsAfter limit value s = .ok n) (hc : digit? c = some d) (le : 10 * n + d ≤ limit) :
    digitsAfter limit value (s ++ [c]) = .ok (10 * n + d) := by
  induction s generalizing value with
  | nil =>
    cases h
    simp only [List.nil_append, digitsAfter, hc, if_neg (Nat.not_lt.mpr le)]
  | cons c' s ih =>
    rw [digitsAfter] at h
    rw [List.cons_append, digitsAfter]
    split at h
    · cases h
    · split at h
      · cases h
      · rename_i small
        simp only [if_neg small]
        exact ih h

theorem le_of_digitsAfter {limit value n : Nat} {s : List Char} (le : value ≤ limit)
    (h : digitsAfter limit value s = .ok n) : n ≤ limit := by
  induction s generalizing value with
  | nil =>
    cases h
    exact le
  | cons c s ih =>
    rw [digitsAfter] at h
    split at h
    · cases h
    · split at h
      · cases h
      · rename_i small
        exact ih (Nat.not_lt.mp small) h

theorem le_of_natural {limit n : Nat} {s : List Char} (h : natural limit s = .ok n) :
    n ≤ limit := by
  rw [natural.eq_def] at h
  split at h
  · cases h
  · cases h
  · exact le_of_digitsAfter (Nat.zero_le limit) h
  · exact le_of_digitsAfter (Nat.zero_le limit) h

theorem digitsAfter_ofNat {limit n : Nat} (le : n ≤ limit) :
    digitsAfter limit 0 (ofNat n) = .ok n := by
  induction n using Nat.strongRecOn with
  | ind n ih =>
    rw [ofNat, Nat.toDigits_eq_if (by decide)]
    split
    · rename_i small
      simp only [digitsAfter, digit?_digitChar small, Nat.mul_zero, Nat.zero_add,
        if_neg (Nat.not_lt.mpr le)]
    · rename_i large
      have whole : 10 * (n / 10) + n % 10 = n := Nat.div_add_mod n 10
      have front := ih (n / 10) (by omega) (by omega)
      rw [ofNat] at front
      have read := digitsAfter_append_singleton front
        (digit?_digitChar (Nat.mod_lt n (by decide))) (by omega)
      rwa [whole] at read

theorem ofNat_ne_nil (n : Nat) : ofNat n ≠ [] := Nat.toDigits_ne_nil

theorem isDigit_of_mem_ofNat {n : Nat} {c : Char} (h : c ∈ ofNat n) : c.isDigit = true :=
  Nat.isDigit_of_mem_toDigits (by decide) (by decide) h

theorem natural_ofNat {limit n : Nat} (le : n ≤ limit) : natural limit (ofNat n) = .ok n := by
  have digits : ∀ c ∈ ofNat n, c.isDigit = true := fun _ => isDigit_of_mem_ofNat
  have read := digitsAfter_ofNat le
  rw [natural.eq_def]
  split
  · rename_i none
    exact absurd none (ofNat_ne_nil n)
  · rename_i plus
    rw [plus] at digits
    exact absurd (digits '+' List.mem_cons_self) (by decide)
  · rename_i plus
    rw [plus] at digits
    exact absurd (digits '+' List.mem_cons_self) (by decide)
  · rename_i same
    rwa [same] at read

end Numeral

end ItemLexicon
