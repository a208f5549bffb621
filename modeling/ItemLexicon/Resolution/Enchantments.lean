import ItemLexicon.Number.Roman
import ItemLexicon.Platform.Basic

namespace ItemLexicon.Enchantment

def maxLevel : Nat := Nat.pow 2 32 - 1

def level? (s : List Char) : Option Nat :=
  match Numeral.natural maxLevel s with
  | .ok n => some n
  | .error _ => Roman.read? s

def cutLevel (s : List Char) : List Char × Option Nat :=
  match Text.cutLast ' ' s with
  | some (name, last) =>
    match level? last with
    | some level => (name, some level)
    | none => (s, none)
  | none => (s, none)

def read? (p : Platform) (s : List Char) : Option Enchantment :=
  if s.isEmpty then none
  else
    let (name, level) := cutLevel s
    (p.enchantment? (String.ofList name)).map fun id => ⟨id, level⟩

def parts (s : List Char) : List (List Char) :=
  ((Text.splitOn ',' s).flatMap (Text.splitAt " and ".toList)).map Text.trim

def readAll? (p : Platform) (s : List Char) : Option (List Enchantment) := (parts s).mapM (read? p)

end ItemLexicon.Enchantment
