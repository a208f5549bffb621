import ItemLexicon.Number.Numeral

namespace ItemLexicon.Roman

def letter? (c : Char) : Option Nat :=
  match c.toLower with
  | 'i' => some 1
  | 'v' => some 5
  | 'x' => some 10
  | 'l' => some 50
  | 'c' => some 100
  | _ => none

/-- The state of reading from the right: the total so far and the largest letter seen. -/
structure Tally where
  total : Nat
  largest : Nat
  deriving DecidableEq

def Tally.add (t : Tally) (value : Nat) : Option Tally :=
  if value < t.largest then
    if value ≤ t.total then some { t with total := t.total - value } else none
  else some ⟨t.total + value, value⟩

def tally : List Char → Option Tally
  | [] => some ⟨0, 0⟩
  | c :: s =>
    match tally s, letter? c with
    | some t, some value => t.add value
    | _, _ => none

def read? (s : List Char) : Option Nat :=
  match tally s with
  | some t => if 0 < t.total then some t.total else none
  | none => none

def digitText (one five ten : Char) : Nat → List Char
  | 0 => []
  | 1 => [one]
  | 2 => [one, one]
  | 3 => [one, one, one]
  | 4 => [one, five]
  | 5 => [five]
  | 6 => [five, one]
  | 7 => [five, one, one]
  | 8 => [five, one, one, one]
  | _ => [one, ten]

def write (n : Nat) : List Char :=
  List.replicate (n / 100) 'c' ++ digitText 'x' 'l' 'c' (n / 10 % 10)
    ++ digitText 'i' 'v' 'x' (n % 10)

example : read? (write 49) = some 49 := by decide

example : read? "iiv".toList = some 3 := by decide

end ItemLexicon.Roman
