import ItemLexicon.Definition.Fault

namespace ItemLexicon

inductive Gender
  | unspecified
  | a
  | an
  | plural
  | uncountable
  deriving DecidableEq

namespace Gender

def ofToken (token : List Char) : Except Fault Gender :=
  match Text.trim token with
  | ['a'] => .ok .a
  | ['a', 'n'] => .ok .an
  | ['x'] => .ok .plural
  | ['-'] => .ok .uncountable
  | other => .error (.unknownGender (String.ofList other))

def id : Gender → Int
  | unspecified => -1
  | a => 0
  | an => 1
  | plural => -2
  | uncountable => -3

def isVowel (c : Char) : Bool := "aeiouAEIOU".toList.contains c

/-- The indefinite article in front of a word.  Without a given gender a leading vowel letter
decides. -/
def article (g : Gender) (word : List Char) : Option String :=
  match g with
  | a => some "a"
  | an => some "an"
  | plural => none
  | uncountable => none
  | unspecified => some (if word.head?.any isVowel then "an" else "a")

end Gender

namespace Noun

def pluralMark : Char := '¦'

def tightenMarks : List Char → List Char
  | [] => []
  | ' ' :: '¦' :: s => '¦' :: tightenMarks s
  | c :: s => c :: tightenMarks s

def normal (s : List Char) : List Char := tightenMarks (Text.join [' '] (Text.words s))

def cutGender (s : List Char) : List Char × Option (List Char) :=
  match Text.cutLast '@' s with
  | some (name, token) => (Text.trim name, some (Text.trim token))
  | none => (Text.trim s, none)

/-- Singular and plural of a name.  What follows the first mark up to the next blank is the ending
of the plural. -/
def forms (s : List Char) : List Char × List Char :=
  match Text.cut pluralMark s with
  | none => (Text.trim s, Text.trim s)
  | some (base, rest) =>
    (Text.trim (base ++ rest.dropWhile (!Text.isBlank ·)), Text.trim (base ++ rest))

end Noun

end ItemLexicon
