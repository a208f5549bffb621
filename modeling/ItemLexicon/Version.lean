import ItemLexicon.Number.Numeral
import ItemLexicon.Text.Blank

namespace ItemLexicon

structure Version where
  parts : List Nat
  deriving DecidableEq

inductive VersionFault
  | empty
  | invalid (text : List Char) (cause : NumeralError)
  deriving DecidableEq

namespace VersionFault

def message : VersionFault → String
  | empty => "empty version"
  | invalid text cause =>
    "invalid version '" ++ String.ofList text ++ "': " ++ cause.message

end VersionFault

namespace Version

def partLimit : Nat := Nat.pow 2 32 - 1

def readParts : List (List Char) → Except NumeralError (List Nat)
  | [] => .ok []
  | p :: ps =>
    match Numeral.natural partLimit (Text.trim p) with
    | .error e => .error e
    | .ok n => (readParts ps).map (n :: ·)

def ofChars (s : List Char) : Except VersionFault Version :=
  let s := Text.trim s
  if s.isEmpty then .error .empty
  else match readParts (Text.splitOn '.' s) with
    | .ok parts => .ok ⟨parts⟩
    | .error e => .error (.invalid s e)

def ofString (s : String) : Except VersionFault Version := ofChars s.toList

def toChars (v : Version) : List Char := Text.join ['.'] (v.parts.map Numeral.ofNat)

def toText (v : Version) : String := String.ofList v.toChars

def compareParts : List Nat → List Nat → Ordering
  | [], bs => if bs.all (· == 0) then .eq else .lt
  | a :: as, [] => if a = 0 && as.all (· == 0) then .eq else .gt
  | a :: as, b :: bs =>
    if a < b then .lt else if b < a then .gt else compareParts as bs

def compare (a b : Version) : Ordering := compareParts a.parts b.parts

def same (a b : Version) : Bool := a.compare b == .eq

def atMost (a b : Version) : Bool := a.compare b != .gt

/-- Whether a version meets a specification: a version, `… or newer`, `… or older`, or `… to …`. -/
def meets (current : Version) (spec : List Char) : Except VersionFault Bool :=
  let spec := Text.trim spec
  match Text.dropSuffix? "or newer".toList spec with
  | some s => (ofChars s).map fun v => v.atMost current
  | none =>
    match Text.dropSuffix? "or older".toList spec with
    | some s => (ofChars s).map fun v => current.atMost v
    | none =>
      match Text.cutAt " to ".toList spec with
      | some (low, high) =>
        match ofChars low with
        | .error e => .error e
        | .ok low => (ofChars high).map fun high => low.atMost current && current.atMost high
      | none => (ofChars spec).map fun v => current.same v

end Version

end ItemLexicon
