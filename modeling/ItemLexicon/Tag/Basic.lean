import ItemLexicon.Dictionary
import ItemLexicon.Number.Binary64

namespace ItemLexicon

inductive Tag
  | null
  | bool (value : Bool)
  | int (value : Int)
  | float (value : Binary64)
  | text (value : String)
  | list (items : List Tag)
  | compound (entries : List (String × Tag))

abbrev Tags := Dictionary Tag

namespace Tag

mutual

def same : Tag → Tag → Bool
  | .null, .null => true
  | .bool a, .bool b => a == b
  | .int a, .int b => a == b
  | .float a, .float b => a.same b
  | .text a, .text b => a == b
  | .list a, .list b => sameItems a b
  | .compound a, .compound b => sameEntries a b
  | _, _ => false

def sameItems : List Tag → List Tag → Bool
  | [], [] => true
  | a :: as, b :: bs => same a b && sameItems as bs
  | _, _ => false

def sameEntries : List (String × Tag) → List (String × Tag) → Bool
  | [], [] => true
  | (k, a) :: as, (l, b) :: bs => k == l && same a b && sameEntries as bs
  | _, _ => false

end

instance : BEq Tag := ⟨same⟩

instance : Inhabited Tag := ⟨.null⟩

def text? : Tag → Option String
  | .text s => some s
  | _ => none

end Tag

end ItemLexicon
