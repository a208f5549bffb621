import ItemLexicon.Number.Binary64

namespace ItemLexicon.Binary64

structure Decimal where
  digits : Nat
  point : Int
  deriving DecidableEq

/-- The reals that round to `significand * 2 ^ exponent`, in units of `2 ^ (exponent - 2)`: from
`low` to `high`, both ends included or neither. -/
structure Interval where
  low : Nat
  high : Nat
  closed : Bool
  deriving DecidableEq

def interval (x : Binary64) : Interval where
  low :=
    if x.significand == Nat.pow 2 52 && minExponent < x.exponent then 4 * x.significand - 1
    else 4 * x.significand - 2
  high := 4 * x.significand + 2
  closed := x.significand % 2 == 0

def Interval.contains (i : Interval) (num den d : Nat) : Bool :=
  if i.closed then i.low * den ≤ d * num && d * num ≤ i.high * den
  else i.low * den < d * num && d * num < i.high * den

def gridStep (x : Binary64) (k : Int) : Nat × Nat :=
  let f := fraction 1 (2 - x.exponent)
  match k with
  | .ofNat j => (f.1 * Nat.pow 10 j, f.2)
  | .negSucc j => (f.1, f.2 * Nat.pow 10 (j + 1))

def onGrid? (x : Binary64) (k : Int) : Option Nat :=
  let (num, den) := gridStep x k
  let v := 4 * x.significand * den
  let below := v / num
  let above := below + 1
  let i := interval x
  match i.contains num den below, i.contains num den above with
  | true, true =>
    let left := v - below * num
    let right := above * num - v
    some (if left < right || (left == right && below % 2 == 0) then below else above)
  | true, false => some below
  | false, true => some above
  | false, false => none

/-- The power of ten above a positive number: `10 ^ (point - 1) ≤ x < 10 ^ point`.  Below one the
digits of the inverse count it, since no negative power of ten is a binary fraction. -/
def pointOf (x : Binary64) : Int :=
  let f := fraction x.significand x.exponent
  if f.2 ≤ f.1 then (Numeral.ofNat (f.1 / f.2)).length
  else 1 - ((Numeral.ofNat (f.2 / f.1)).length : Int)

def shortestFrom (x : Binary64) (point : Int) (count : Nat) : Nat → Decimal
  | 0 => ⟨x.significand, x.exponent⟩
  | fuel + 1 =>
    match onGrid? x (point - count) with
    | some d =>
      if d = Nat.pow 10 count then ⟨1, point + 1⟩ else ⟨d, point⟩
    | none => shortestFrom x point (count + 1) fuel

def shortest (x : Binary64) : Decimal := shortestFrom x (pointOf x) 1 17

end ItemLexicon.Binary64
