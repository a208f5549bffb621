import ItemLexicon.Number.Numeral

/-! Finite binary floating point numbers of double width.  Every operation is exact arithmetic on
natural numbers followed by one rounding to the nearest value. -/

namespace ItemLexicon

/-- The number `± significand * 2 ^ exponent`. -/
structure Binary64 where
  negative : Bool
  significand : Nat
  exponent : Int
  deriving DecidableEq

namespace Binary64

def zero (negative : Bool) : Binary64 := ⟨negative, 0, -1074⟩

def isZero (x : Binary64) : Bool := x.significand == 0

def minExponent : Int := -1074

def maxExponent : Int := 971

def same (x y : Binary64) : Bool := (x.isZero && y.isZero) || x == y

def roundDiv (num den : Nat) : Nat :=
  let q := num / den
  let r := num % den
  if den < 2 * r || (den == 2 * r && q % 2 == 1) then q + 1 else q

def scaled (num den : Nat) (e : Int) : Nat × Nat :=
  match e with
  | .ofNat k => (num, den * Nat.pow 2 k)
  | .negSucc k => (num * Nat.pow 2 (k + 1), den)

/-- The exponent that gives a positive fraction a significand of 53 bits, or the least one. -/
def exponentFor (num den : Nat) : Int :=
  let e : Int := (num.log2 : Int) - (den.log2 : Int) - 52
  let s := scaled num den e
  max minExponent (if s.1 / s.2 < Nat.pow 2 52 then e - 1 else e)

/-- The value nearest to `num / den`, or nothing when that is beyond the largest one. -/
def ofFraction? (negative : Bool) (num den : Nat) : Option Binary64 :=
  if num = 0 then some (zero negative)
  else
    let e := exponentFor num den
    let s := scaled num den e
    let m := roundDiv s.1 s.2
    if m = Nat.pow 2 53 then
      if e + 1 ≤ maxExponent then some ⟨negative, Nat.pow 2 52, e + 1⟩ else none
    else if e ≤ maxExponent then some ⟨negative, m, e⟩ else none

def ofNat? (n : Nat) : Option Binary64 := ofFraction? false n 1

def fraction (m : Nat) (e : Int) : Nat × Nat :=
  match e with
  | .ofNat k => (m * Nat.pow 2 k, 1)
  | .negSucc k => (m, Nat.pow 2 (k + 1))

def mul? (x y : Binary64) : Option Binary64 :=
  let f := fraction (x.significand * y.significand) (x.exponent + y.exponent)
  ofFraction? (x.negative != y.negative) f.1 f.2

def div? (x y : Binary64) : Option Binary64 :=
  let f := fraction x.significand (x.exponent - y.exponent)
  ofFraction? (x.negative != y.negative) f.1 (f.2 * y.significand)

def ofDecimal? (negative : Bool) (digits : Nat) (exponent : Int) : Option Binary64 :=
  if digits = 0 then some (zero negative)
  else
    let size : Int := (Numeral.ofNat digits).length + exponent
    if 320 < size then none
    else if size < -340 then some (zero negative)
    else match exponent with
      | .ofNat k => ofFraction? negative (digits * Nat.pow 10 k) 1
      | .negSucc k => ofFraction? negative digits (Nat.pow 10 (k + 1))

def truncate (x : Binary64) : Nat :=
  let f := fraction x.significand x.exponent
  f.1 / f.2

end Binary64

end ItemLexicon
