import ItemLexicon.Definition.Fault

namespace ItemLexicon.Pattern

def isCloser (c : Char) : Bool := c == ']' || c == ')'

def isGroupMark (c : Char) : Bool := c == '[' || c == '(' || isCloser c

def depthAfter (depth : Nat) (c : Char) : Nat :=
  if c == '(' || c == '[' then depth + 1
  else if isCloser c then depth - 1
  else depth

def alternatives (depth : Nat) : List Char → List (List Char)
  | [] => [[]]
  | c :: s =>
    if c == '|' && depth == 0 then [] :: alternatives 0 s
    else match alternatives (depthAfter depth c) s with
      | [] => [[c]]
      | p :: ps => (c :: p) :: ps

def firstCloser : List Char → Option (List Char × Char × List Char)
  | [] => none
  | c :: s =>
    if isCloser c then some ([], c, s)
    else (firstCloser s).map fun r => (c :: r.1, r.2)

def unclosed? (s : List Char) : Option Fault :=
  match Text.cutLast '[' s with
  | some (before, _) => some (.notEnoughBrackets before.length '[')
  | none =>
    match Text.cutLast '(' s with
    | some (before, _) => some (.notEnoughBrackets before.length '(')
    | none => none

def opener (bracket : Char) : Char := if bracket == ']' then '[' else '('

/-- The texts that stand for one, by what is in front of its first group, in it, and behind it. -/
def rewrites (bracket : Char) (before body after : List Char) : List (List Char) :=
  if bracket == ']' then [before ++ body ++ after, before ++ after]
  else (alternatives 0 body).map fun choice => before ++ choice ++ after

/-- What a pattern expands to, in order and with repetitions, where `closers` is the number of its
closing brackets. -/
def outcomes : Nat → List Char → List (Except Fault (List Char))
  | 0, s =>
    match unclosed? s with
    | some fault => [.error fault]
    | none => [.ok s]
  | closers + 1, s =>
    match firstCloser s with
    | none => outcomes closers s
    | some (before, bracket, after) =>
      match Text.cutLast (opener bracket) before with
      | none => [.error (.tooManyBrackets before.length bracket)]
      | some (start, body) => (rewrites bracket start body after).flatMap (outcomes closers)

structure Expansion where
  names : List (List Char)
  faults : List Fault
  deriving DecidableEq

def fault? : Except Fault (List Char) → Option Fault
  | .error fault => some fault
  | .ok _ => none

def Expansion.ofOutcomes (all : List (Except Fault (List Char))) : Expansion :=
  ⟨(all.filterMap Except.toOption).eraseDups, (all.filterMap fault?).eraseDups⟩

def expand (s : List Char) : Expansion := .ofOutcomes (outcomes (s.countP isCloser) s)

example : (expand "[a](b|c)".toList).names.map String.ofList = ["ab", "ac", "b", "c"] := by decide

end ItemLexicon.Pattern
