import ItemLexicon.Text.Cut

namespace ItemLexicon.Text

def isBlank (c : Char) : Bool :=
  let n := c.toNat
  (9 ≤ n && n ≤ 13) || n == 0x20 || n == 0x85 || n == 0xA0 || n == 0x1680 ||
    (0x2000 ≤ n && n ≤ 0x200A) || n == 0x2028 || n == 0x2029 || n == 0x202F || n == 0x205F ||
    n == 0x3000

def trimStart (s : List Char) : List Char := s.dropWhile isBlank

def trimEnd : List Char → List Char
  | [] => []
  | c :: s =>
    match trimEnd s with
    | [] => if isBlank c then [] else [c]
    | d :: t => c :: d :: t

def trim (s : List Char) : List Char := trimEnd (trimStart s)

def words (s : List Char) : List (List Char) := (splitWhere isBlank s).filter (!·.isEmpty)

@[simp] theorem trimEnd_nil : trimEnd [] = [] := rfl

@[simp] theorem trim_nil : trim [] = [] := rfl

@[simp] theorem words_nil : words [] = [] := rfl

theorem words_cons_of_isBlank {c : Char} (h : isBlank c) (s : List Char) :
    words (c :: s) = words s := by
  simp [words, splitWhere, h]

end ItemLexicon.Text
