import ItemLexicon.Tag.Strict

namespace ItemLexicon.Json.Document

def fieldOf? (name : String) :
    List (List Piece × Document) → Option (Option Document)
  | [] => some none
  | (key, value) :: rest =>
    match Piece.assemble? key, fieldOf? name rest with
    | some k, some found =>
      if String.ofList k = name then
        match found with
        | none => some (some value)
        | some _ => none
      else some found
    | _, _ => none

def fields? (names : List String) : Document → Option (List (Option Document))
  | .object members => names.mapM fun name => fieldOf? name members
  | .array items =>
    if items.length ≤ names.length then
      some (items.map some ++ List.replicate (names.length - items.length) none)
    else none
  | _ => none

def text? : Document → Option String
  | .text ps => (Piece.assemble? ps).map String.ofList
  | _ => none

def bool? : Document → Option Bool
  | .bool b => some b
  | _ => none

def intIn? (low high : Int) : Document → Option Int
  | .number n =>
    match n.integer? with
    | some i => if low ≤ i && i ≤ high then some i else none
    | none => none
  | _ => none

def natUpTo? (high : Nat) (d : Document) : Option Nat := (intIn? 0 high d).map Int.toNat

def list? {α : Type} (item? : Document → Option α) : Document → Option (List α)
  | .array items => items.mapM item?
  | _ => none

def texts? : Document → Option (Dictionary String)
  | .object members =>
    (members.mapM fun m : List Piece × Document => do
      let key ← Piece.assemble? m.1
      let value ← m.2.text?
      return (String.ofList key, value)).map Dictionary.ofList
  | _ => none

def orElse? {α : Type} (absent : α) (read? : Document → Option α) : Option Document → Option α
  | none => some absent
  | some d => read? d

end ItemLexicon.Json.Document
