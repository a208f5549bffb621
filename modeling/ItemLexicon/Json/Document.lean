import ItemLexicon.Text.Cut
import ItemLexicon.Number.Numeral

/-! JSON text as a syntax tree, which keeps what a later reading may still refuse: repeated keys,
numbers as their digits, and halves of surrogate pairs. -/

namespace ItemLexicon.Json

structure NumberText where
  negative : Bool
  whole : List Char
  fraction : Option (List Char)
  exponent : Option (Bool × List Char)
  deriving DecidableEq

/-- One character of a quoted text: itself, or a sixteen bit unit from an escape. -/
inductive Piece
  | char (c : Char)
  | unit (n : Nat)
  deriving DecidableEq

inductive Document
  | null
  | bool (value : Bool)
  | number (value : NumberText)
  | text (value : List Piece)
  | array (items : List Document)
  | object (members : List (List Piece × Document))

namespace Piece

def isHigh (n : Nat) : Bool := 0xD800 ≤ n && n ≤ 0xDBFF

def isLow (n : Nat) : Bool := 0xDC00 ≤ n && n ≤ 0xDFFF

/-- The text that pieces denote; none when a surrogate stands alone. -/
def assemble? : List Piece → Option (List Char)
  | [] => some []
  | .char c :: ps => (assemble? ps).map (c :: ·)
  | .unit h :: .unit l :: ps =>
    if isHigh h then
      if isLow l then
        (assemble? ps).map
          (Char.ofNat (0x10000 + 0x400 * (h - 0xD800) + (l - 0xDC00)) :: ·)
      else none
    else if isLow h then none
    else (assemble? (.unit l :: ps)).map (Char.ofNat h :: ·)
  | .unit h :: ps =>
    if isHigh h || isLow h then none else (assemble? ps).map (Char.ofNat h :: ·)

end Piece

namespace Document

def isSpace (c : Char) : Bool := c == ' ' || c == '\n' || c == '\t' || c == '\r'

def skipSpace (s : List Char) : List Char := s.dropWhile isSpace

def hexDigit? (c : Char) : Option Nat :=
  let n := c.toNat
  if 48 ≤ n && n ≤ 57 then some (n - 48)
  else if 97 ≤ n && n ≤ 102 then some (n - 87)
  else if 65 ≤ n && n ≤ 70 then some (n - 55)
  else none

def hexUnit? (a b c d : Char) : Option Nat :=
  match hexDigit? a, hexDigit? b, hexDigit? c, hexDigit? d with
  | some a, some b, some c, some d => some (4096 * a + 256 * b + 16 * c + d)
  | _, _, _, _ => none

def escaped? : Char → Option Char
  | '"' => some '"'
  | '\\' => some '\\'
  | '/' => some '/'
  | 'b' => some '\x08'
  | 'f' => some '\x0c'
  | 'n' => some '\n'
  | 'r' => some '\r'
  | 't' => some '\t'
  | _ => none

def quoted? : List Char → Option (List Piece × List Char)
  | [] => none
  | '"' :: s => some ([], s)
  | '\\' :: 'u' :: a :: b :: c :: d :: s =>
    match hexUnit? a b c d, quoted? s with
    | some n, some (ps, rest) => some (.unit n :: ps, rest)
    | _, _ => none
  | '\\' :: e :: s =>
    match escaped? e, quoted? s with
    | some c, some (ps, rest) => some (.char c :: ps, rest)
    | _, _ => none
  | c :: s =>
    if c.toNat < 0x20 || c == '\\' then none
    else match quoted? s with
      | some (ps, rest) => some (.char c :: ps, rest)
      | none => none

def digits (s : List Char) : List Char × List Char :=
  (s.takeWhile Char.isDigit, s.dropWhile Char.isDigit)

def whole? (s : List Char) : Option (List Char × List Char) :=
  match digits s with
  | ([], _) => none
  | ('0' :: _ :: _, _) => none
  | d => some d

def fraction? : List Char → Option (Option (List Char) × List Char)
  | '.' :: s =>
    match digits s with
    | ([], _) => none
    | (ds, rest) => some (some ds, rest)
  | s => some (none, s)

def exponentDigits? (negative : Bool) (s : List Char) :
    Option (Option (Bool × List Char) × List Char) :=
  match digits s with
  | ([], _) => none
  | (ds, rest) => some (some (negative, ds), rest)

def exponent? : List Char → Option (Option (Bool × List Char) × List Char)
  | [] => some (none, [])
  | c :: s =>
    if c == 'e' || c == 'E' then
      match s with
      | '+' :: t => exponentDigits? false t
      | '-' :: t => exponentDigits? true t
      | t => exponentDigits? false t
    else some (none, c :: s)

def number? (negative : Bool) (s : List Char) : Option (Document × List Char) := do
  let (whole, s) ← whole? s
  let (fraction, s) ← fraction? s
  let (exponent, s) ← exponent? s
  return (.number ⟨negative, whole, fraction, exponent⟩, s)

mutual

/-- Reads one value.  The first argument bounds the steps, of which a character takes at most
two. -/
def value? : Nat → List Char → Option (Document × List Char)
  | 0, _ => none
  | fuel + 1, s =>
    match skipSpace s with
    | 'n' :: 'u' :: 'l' :: 'l' :: s => some (.null, s)
    | 't' :: 'r' :: 'u' :: 'e' :: s => some (.bool true, s)
    | 'f' :: 'a' :: 'l' :: 's' :: 'e' :: s => some (.bool false, s)
    | '"' :: s => (quoted? s).map fun p => (.text p.1, p.2)
    | '[' :: s =>
      match skipSpace s with
      | ']' :: s => some (.array [], s)
      | s => (items? fuel s).map fun p => (.array p.1, p.2)
    | '\x7b' :: s =>
      match skipSpace s with
      | '\x7d' :: s => some (.object [], s)
      | s => (members? fuel s).map fun p => (.object p.1, p.2)
    | '-' :: s => number? true s
    | s => number? false s

def items? : Nat → List Char → Option (List Document × List Char)
  | 0, _ => none
  | fuel + 1, s =>
    match value? fuel s with
    | none => none
    | some (item, s) =>
      match skipSpace s with
      | ',' :: s => (items? fuel s).map fun p => (item :: p.1, p.2)
      | ']' :: s => some ([item], s)
      | _ => none

def members? : Nat → List Char → Option (List (List Piece × Document) × List Char)
  | 0, _ => none
  | fuel + 1, s =>
    match skipSpace s with
    | '"' :: s =>
      match quoted? s with
      | none => none
      | some (key, s) =>
        match skipSpace s with
        | ':' :: s =>
          match value? fuel s with
          | none => none
          | some (value, s) =>
            match skipSpace s with
            | ',' :: s => (members? fuel s).map fun p => ((key, value) :: p.1, p.2)
            | '\x7d' :: s => some ([(key, value)], s)
            | _ => none
        | _ => none
    | _ => none

end

def read? (s : List Char) : Option Document :=
  match value? (2 * s.length + 2) s with
  | some (d, rest) => if (skipSpace rest).isEmpty then some d else none
  | none => none

end Document

end ItemLexicon.Json
