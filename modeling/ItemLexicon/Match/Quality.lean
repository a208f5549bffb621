namespace ItemLexicon

inductive Quality
  | exact
  | sameItem
  | sameMaterial
  | different
  deriving DecidableEq

namespace Quality

def rank : Quality → Nat
  | exact => 0
  | sameItem => 1
  | sameMaterial => 2
  | different => 3

def isBetter (a b : Quality) : Bool := a.rank < b.rank

def isAtLeast (a b : Quality) : Bool := a.rank ≤ b.rank

def worst (a b : Quality) : Quality := if b.isBetter a then a else b

@[simp] theorem worst_self (a : Quality) : worst a a = a := by cases a <;> rfl

@[simp] theorem exact_worst (a : Quality) : worst exact a = a := by cases a <;> rfl

@[simp] theorem worst_exact (a : Quality) : worst a exact = a := by cases a <;> rfl

end Quality

end ItemLexicon
