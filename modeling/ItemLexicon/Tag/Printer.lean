import ItemLexicon.Number.Shortest
import ItemLexicon.Tag.Basic
import ItemLexicon.Text.Cut

namespace ItemLexicon

namespace Binary64

def zeros (n : Nat) : List Char := List.replicate n '0'

/-- The text of a floating point number.  With one digit before the point, exponents from `-5` to
`15` are written positionally and always with a point; other exponents follow the digits with their
sign. -/
def magnitudeText (x : Binary64) : List Char :=
  if x.isZero then ['0', '.', '0']
  else
    let d := x.shortest
    let ds := Numeral.ofNat d.digits
    match d.point with
    | .ofNat 0 => ['0', '.'] ++ ds
    | .ofNat (n + 1) =>
      if n ≤ 15 then
        if ds.length ≤ n + 1 then ds ++ zeros (n + 1 - ds.length) ++ ['.', '0']
        else ds.take (n + 1) ++ ['.'] ++ ds.drop (n + 1)
      else ds.take 1 ++ point (ds.drop 1) ++ ['e', '+'] ++ Numeral.ofNat n
    | .negSucc n =>
      if n ≤ 3 then ['0', '.'] ++ zeros (n + 1) ++ ds
      else ds.take 1 ++ point (ds.drop 1) ++ ['e', '-'] ++ Numeral.ofNat (n + 2)
where
  point : List Char → List Char
    | [] => []
    | ds => '.' :: ds

def text (x : Binary64) : List Char :=
  if x.negative then '-' :: x.magnitudeText else x.magnitudeText

end Binary64

namespace Tag

def hexDigit (n : Nat) : Char := Nat.digitChar n

def quotedChar (c : Char) : List Char :=
  match c with
  | '"' => ['\\', '"']
  | '\\' => ['\\', '\\']
  | '\x08' => ['\\', 'b']
  | '\x0c' => ['\\', 'f']
  | '\n' => ['\\', 'n']
  | '\r' => ['\\', 'r']
  | '\t' => ['\\', 't']
  | c =>
    if c.toNat < 0x20 then
      ['\\', 'u', '0', '0', hexDigit (c.toNat / 16), hexDigit (c.toNat % 16)]
    else [c]

def quoted (s : List Char) : List Char := '"' :: s.flatMap quotedChar ++ ['"']

def intText (n : Int) : List Char :=
  match n with
  | .ofNat n => Numeral.ofNat n
  | .negSucc n => '-' :: Numeral.ofNat (n + 1)

mutual

def json : Tag → List Char
  | .null => ['n', 'u', 'l', 'l']
  | .bool true => ['t', 'r', 'u', 'e']
  | .bool false => ['f', 'a', 'l', 's', 'e']
  | .int n => intText n
  | .float x => x.text
  | .text s => quoted s.toList
  | .list items => '[' :: jsonItems items
  | .compound entries => '\x7b' :: jsonEntries entries

def jsonItems : List Tag → List Char
  | [] => [']']
  | [t] => json t ++ [']']
  | t :: u :: ts => json t ++ ',' :: jsonItems (u :: ts)

def jsonEntries : List (String × Tag) → List Char
  | [] => ['\x7d']
  | [(k, t)] => quoted k.toList ++ ':' :: (json t ++ ['\x7d'])
  | (k, t) :: e :: es => quoted k.toList ++ ':' :: (json t ++ ',' :: jsonEntries (e :: es))

end

def display : Tag → String
  | .text s => s
  | t => String.ofList t.json

end Tag

def Tags.json (tags : Tags) : String := String.ofList (Tag.json (.compound tags))

end ItemLexicon
