import ItemLexicon.Tag.Strict
import ItemLexicon.Text.Alphanumeric
import ItemLexicon.Text.Blank

namespace ItemLexicon

inductive TagFault
  | unexpectedCharacter (offset : Nat)
  | unexpectedEnd
  | missingKey (offset : Nat)
  | expected (wanted found : Char) (offset : Nat)
  | expectedAtEnd (wanted : Char)
  | expectedSeparator (closer : Char) (offset : Nat)
  | unterminatedEscape
  | unterminatedString
  | trailingInput (offset : Nat)
  | notCompound
  deriving DecidableEq

namespace TagFault

def message : TagFault → String
  | unexpectedCharacter n => "unexpected character at offset " ++ toString n
  | unexpectedEnd => "unexpected end of input"
  | missingKey n => "missing key at offset " ++ toString n
  | expected w c n =>
    "expected '" ++ w.toString ++ "' but found '" ++ c.toString ++ "' at offset " ++ toString n
  | expectedAtEnd w => "expected '" ++ w.toString ++ "' but input ended"
  | expectedSeparator c n => "expected ',' or '" ++ c.toString ++ "' at offset " ++ toString n
  | unterminatedEscape => "unterminated escape"
  | unterminatedString => "unterminated string"
  | trailingInput n => "trailing input at offset " ++ toString n
  | notCompound => "expected an object"

end TagFault

namespace Tag

def decimalParts (s : List Char) : List Char × List Char × List Char :=
  let whole := s.takeWhile Char.isDigit
  match s.dropWhile Char.isDigit with
  | '.' :: t => (whole, t.takeWhile Char.isDigit, t.dropWhile Char.isDigit)
  | t => (whole, [], t)

def digitsValue (s : List Char) : Nat := s.foldl (fun n c => 10 * n + (c.toNat - 48)) 0

def decimalExponent? : List Char → Option Int
  | [] => some 0
  | c :: s =>
    let digits (negative : Bool) (s : List Char) : Option Int :=
      if s.isEmpty || !s.all Char.isDigit then none
      else some (if negative then -(digitsValue s : Int) else digitsValue s)
    if c == 'e' || c == 'E' then
      match s with
      | '+' :: t => digits false t
      | '-' :: t => digits true t
      | t => digits false t
    else none

def magnitude? (negative : Bool) (s : List Char) : Option Binary64 :=
  match decimalParts s with
  | ([], [], _) => none
  | (whole, fraction, rest) =>
    match decimalExponent? rest with
    | some e => Binary64.ofDecimal? negative (digitsValue (whole ++ fraction)) (e - fraction.length)
    | none => none

def float? : List Char → Option Binary64
  | '-' :: s => magnitude? true s
  | '+' :: s => magnitude? false s
  | s => magnitude? false s

def number? (s : List Char) : Option Tag :=
  match Numeral.integer (Nat.pow 2 63 - 1) s with
  | .ok n => some (.int n)
  | .error _ => (float? s).map .float

def isSuffix (c : Char) : Bool := "bBsSlLfFdD".toList.contains c

def dropSuffix (s : List Char) : Option (List Char) :=
  match s.getLast? with
  | some c => if isSuffix c then some s.dropLast else none
  | none => none

def ofBare (s : List Char) : Tag :=
  if s = "true".toList then .bool true
  else if s = "false".toList then .bool false
  else if s = "null".toList then .null
  else match number? s with
    | some t => t
    | none =>
      match (dropSuffix s).bind number? with
      | some t => t
      | none => .text (String.ofList s)

/-- The unread part of a tag block and the number of bytes before it. -/
structure Cursor where
  rest : List Char
  offset : Nat
  deriving DecidableEq

namespace Cursor

def advance (c : Cursor) (passed rest : List Char) : Cursor :=
  ⟨rest, c.offset + Text.byteLength passed⟩

def skipBlank (c : Cursor) : Cursor :=
  c.advance (c.rest.takeWhile Text.isBlank) (c.rest.dropWhile Text.isBlank)

def isBareKey (c : Char) : Bool :=
  Text.isAlphanumeric c || c == '_' || c == '-' || c == '.' || c == '+'

def isBareValue (c : Char) : Bool := isBareKey c || c == ':'

def bare (p : Char → Bool) (c : Cursor) : List Char × Cursor :=
  (c.rest.takeWhile p, c.advance (c.rest.takeWhile p) (c.rest.dropWhile p))

def expect (wanted : Char) (c : Cursor) : Except TagFault Cursor :=
  let c := c.skipBlank
  match c.rest with
  | [] => .error (.expectedAtEnd wanted)
  | d :: s => if d = wanted then .ok (c.advance [d] s) else .error (.expected wanted d c.offset)

def skipMark (c : Cursor) : Cursor :=
  match c.rest with
  | m :: ';' :: s => if m == 'B' || m == 'I' || m == 'L' then c.advance [m, ';'] s else c
  | _ => c

end Cursor

def unescape : Char → Char
  | 'n' => '\n'
  | 't' => '\t'
  | c => c

def quotedAfter (quote : Char) :
    List Char → Except TagFault (List Char × List Char × List Char)
  | [] => .error .unterminatedString
  | '\\' :: s =>
    match s with
    | [] => .error .unterminatedEscape
    | c :: s => (quotedAfter quote s).map fun r => (unescape c :: r.1, '\\' :: c :: r.2.1, r.2.2)
  | c :: s =>
    if c = quote then .ok ([], [c], s)
    else (quotedAfter quote s).map fun r => (c :: r.1, c :: r.2.1, r.2.2)

def isQuote (c : Char) : Bool := c == '"' || c == '\x27'

def quotedText (quote : Char) (s : List Char) (c : Cursor) :
    Except TagFault (List Char × Cursor) :=
  (quotedAfter quote s).map fun r => (r.1, c.advance (quote :: r.2.1) r.2.2)

def key (c : Cursor) : Except TagFault (List Char × Cursor) :=
  match c.rest with
  | [] => .ok ([], c)
  | q :: s => if isQuote q then quotedText q s c else .ok (c.bare Cursor.isBareKey)

mutual

/-- Reads one value.  The first argument bounds the steps, of which a character takes at most
two. -/
def relaxedValue : Nat → Cursor → Except TagFault (Tag × Cursor)
  | 0, _ => .error .unexpectedEnd
  | fuel + 1, c =>
    let c := c.skipBlank
    match c.rest with
    | [] => .error .unexpectedEnd
    | '\x7b' :: s =>
      let inside := (c.advance ['\x7b'] s).skipBlank
      match inside.rest with
      | '\x7d' :: s => .ok (.compound [], inside.advance ['\x7d'] s)
      | _ => (relaxedEntries fuel [] inside).map fun r => (.compound r.1, r.2)
    | '[' :: s =>
      let inside := (c.advance ['['] s).skipBlank
      match inside.rest with
      | ']' :: s => .ok (.list [], inside.advance [']'] s)
      | _ => (relaxedItems fuel inside.skipMark).map fun r => (.list r.1, r.2)
    | q :: s =>
      if isQuote q then
        (quotedText q s c).map fun r => (.text (String.ofList r.1), r.2)
      else
        match c.bare Cursor.isBareValue with
        | ([], c) => .error (.unexpectedCharacter c.offset)
        | (word, c) => .ok (ofBare word, c)

def relaxedEntries : Nat → Tags → Cursor → Except TagFault (Tags × Cursor)
  | 0, _, _ => .error .unexpectedEnd
  | fuel + 1, entries, c =>
    match key c.skipBlank with
    | .error e => .error e
    | .ok ([], c) => .error (.missingKey c.offset)
    | .ok (k, c) =>
      match c.expect ':' with
      | .error e => .error e
      | .ok c =>
        match relaxedValue fuel c with
        | .error e => .error e
        | .ok (value, c) =>
          let entries := Dictionary.insert (String.ofList k) value entries
          let c := c.skipBlank
          match c.rest with
          | ',' :: s => relaxedEntries fuel entries (c.advance [','] s)
          | '\x7d' :: s => .ok (entries, c.advance ['\x7d'] s)
          | d :: s => .error (.expectedSeparator '\x7d' (c.advance [d] s).offset)
          | [] => .error (.expectedSeparator '\x7d' c.offset)

def relaxedItems : Nat → Cursor → Except TagFault (List Tag × Cursor)
  | 0, _ => .error .unexpectedEnd
  | fuel + 1, c =>
    match relaxedValue fuel c with
    | .error e => .error e
    | .ok (item, c) =>
      let c := c.skipBlank
      match c.rest with
      | ',' :: s => (relaxedItems fuel (c.advance [','] s)).map fun r => (item :: r.1, r.2)
      | ']' :: s => .ok ([item], c.advance [']'] s)
      | d :: s => .error (.expectedSeparator ']' (c.advance [d] s).offset)
      | [] => .error (.expectedSeparator ']' c.offset)

end

def relaxed (s : List Char) : Except TagFault Tag :=
  match relaxedValue (2 * s.length + 2) ⟨s, 0⟩ with
  | .error e => .error e
  | .ok (t, c) =>
    let c := c.skipBlank
    if c.rest.isEmpty then .ok t else .error (.trailingInput c.offset)

/-- Strict JSON where the text is that, else the relaxed form. -/
def ofText (s : List Char) : Except TagFault Tag :=
  match ofJson? s with
  | some t => .ok t
  | none => relaxed s

end Tag

namespace Tags

def read (s : String) : Except TagFault Tags :=
  match Tag.ofText s.toList with
  | .error e => .error e
  | .ok (.compound entries) => .ok entries
  | .ok _ => .error .notCompound

end Tags

end ItemLexicon
