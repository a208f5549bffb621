import ItemLexicon.Json.Document
import ItemLexicon.Tag.Basic

/-! Tags from strict JSON. The digits of a floating point number count as long as they fit a 64-bit
word, and one correctly rounded operation brings in the power of ten. -/

namespace ItemLexicon

namespace Json.NumberText

def wordLimit : Nat := Nat.pow 2 64

def extend (significand : Nat) : List Char → Nat × Nat
  | [] => (significand, 0)
  | c :: s =>
    let next := 10 * significand + (c.toNat - 48)
    if next < wordLimit then extend next s else (significand, s.length + 1)

def maxPower : Nat := 308

def power (k : Nat) : Option Binary64 := Binary64.ofNat? (Nat.pow 10 k)

/-- Divides a number of at most 64 bits by `10 ^ k`, in two steps when one power does not suffice.
What is left after more than two is zero. -/
def divideByPower (x : Binary64) (k : Nat) : Option Binary64 :=
  if k ≤ maxPower then (power k).bind x.div?
  else if k ≤ 2 * maxPower then do
    let y ← (power maxPower).bind x.div?
    (power (k - maxPower)).bind y.div?
  else some (.zero false)

def scale? (significand : Nat) (exponent : Int) : Option Binary64 :=
  match Binary64.ofNat? significand with
  | none => none
  | some x =>
    match exponent with
    | .ofNat k =>
      if k ≤ maxPower then (power k).bind x.mul?
      else if x.isZero then some x else none
    | .negSucc k => divideByPower x (k + 1)

def exponentValue : Option (Bool × List Char) → Int
  | none => 0
  | some (negative, ds) =>
    let n : Nat := ds.foldl (fun n c => 10 * n + (c.toNat - 48)) 0
    if negative then -(n : Int) else n

def float? (n : NumberText) : Option Binary64 :=
  let (significand, left) := extend 0 n.whole
  let fraction := n.fraction.getD []
  let (significand, unread) := extend significand fraction
  let exponent : Int := left - ((fraction.length - unread : Nat) : Int) + exponentValue n.exponent
  (scale? significand exponent).map fun x => { x with negative := n.negative }

def integer? (n : NumberText) : Option Int :=
  match n.fraction, n.exponent, extend 0 n.whole with
  | none, none, (significand, 0) =>
    if n.negative then
      if 0 < significand && significand ≤ Nat.pow 2 63 then some (-(significand : Int)) else none
    else some significand
  | _, _, _ => none

def tag? (n : NumberText) : Option Tag :=
  match n.integer? with
  | some i => some (.int i)
  | none => n.float?.map .float

end Json.NumberText

namespace Tag

def maxDepth : Nat := 127

mutual

def ofDocument? (depth : Nat) : Json.Document → Option Tag
  | .null => some .null
  | .bool b => some (.bool b)
  | .number n => n.tag?
  | .text ps => (Json.Piece.assemble? ps).map fun s => .text (String.ofList s)
  | .array items =>
    match depth with
    | 0 => none
    | depth + 1 => (itemsOfDocuments? depth items).map .list
  | .object members =>
    match depth with
    | 0 => none
    | depth + 1 => (entriesOfMembers? depth members).map fun es => .compound (Dictionary.ofList es)

def itemsOfDocuments? (depth : Nat) : List Json.Document → Option (List Tag)
  | [] => some []
  | d :: ds =>
    match ofDocument? depth d, itemsOfDocuments? depth ds with
    | some t, some ts => some (t :: ts)
    | _, _ => none

def entriesOfMembers? (depth : Nat) :
    List (List Json.Piece × Json.Document) → Option (List (String × Tag))
  | [] => some []
  | (key, d) :: ds =>
    match Json.Piece.assemble? key, ofDocument? depth d, entriesOfMembers? depth ds with
    | some k, some t, some es => some ((String.ofList k, t) :: es)
    | _, _, _ => none

end

def ofJson? (s : List Char) : Option Tag :=
  (Json.Document.read? s).bind (ofDocument? maxDepth)

end Tag

namespace Tags

def ofDocument? (depth : Nat) (d : Json.Document) : Option Tags :=
  match Tag.ofDocument? depth d with
  | some (.compound entries) => some entries
  | _ => none

def ofJson? (s : String) : Option Tags :=
  (Json.Document.read? s.toList).bind (ofDocument? Tag.maxDepth)

end Tags

end ItemLexicon
