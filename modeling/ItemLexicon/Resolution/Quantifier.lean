import ItemLexicon.Number.Numeral
import ItemLexicon.Selector.Basic
import ItemLexicon.Text.Cut

namespace ItemLexicon

structure Quantifier where
  amount : Int
  all : Bool
  deriving DecidableEq

namespace Quantifier

def none : Quantifier := ⟨-1, false⟩

def maxAmount : Nat := Nat.pow 2 31 - 1

def amount? (s : List Char) : Option Nat :=
  if s.isEmpty || !s.all Char.isDigit then .none
  else (Numeral.natural maxAmount s).toOption

def afterAmount (amount : Nat) (s : List Char) : Quantifier × List Char :=
  match Text.dropPrefix? "of every ".toList s with
  | some name => (⟨amount, true⟩, name)
  | .none => (⟨amount, false⟩, (Text.dropPrefix? "of ".toList s).getD s)

def inWords (s : List Char) : Quantifier × List Char :=
  match Text.dropPrefix? "every ".toList s with
  | some name => (⟨-1, true⟩, name)
  | .none =>
    match (Text.dropPrefix? "an ".toList s).or (Text.dropPrefix? "a ".toList s) with
    | some name => (⟨1, false⟩, name)
    | .none => (none, s)

/-- The quantifier at the front of a text, and the name behind it. -/
def read (s : List Char) : Quantifier × List Char :=
  match Text.cut ' ' s with
  | some (digits, rest) =>
    match amount? digits with
    | some amount => afterAmount amount rest
    | .none => inWords s
  | .none => inWords s

def selector (q : Quantifier) : Selector :=
  .ofSelection { Selection.empty with amount := q.amount, all := q.all }

end Quantifier

end ItemLexicon
