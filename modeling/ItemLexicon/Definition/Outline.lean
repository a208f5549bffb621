import ItemLexicon.Definition.Fault

/-! Alias text as an outline.  A line that ends in a colon heads a section, a line with an equals
sign is an entry, and a number sign starts a comment. -/

namespace ItemLexicon.Outline

inductive Node
  | entry (key value : String) (line : Nat)
  | heading (key : String) (line : Nat) (children : List Node)

def dropComment : List Char → List Char
  | [] => []
  | '#' :: '#' :: s => '#' :: dropComment s
  | '#' :: _ => []
  | c :: s => c :: dropComment s

inductive Content
  | entry (key value : String)
  | heading (key : String)
  | invalid (text : String)
  deriving DecidableEq

def trimmed (s : List Char) : String := String.ofList (Text.trim s)

def Content.of (s : List Char) : Content :=
  match Text.cut '=' s with
  | some (key, value) => .entry (trimmed key) (trimmed value)
  | none =>
    match Text.dropSuffix? [':'] s with
    | some key => .heading (trimmed key)
    | none => .invalid (String.ofList s)

structure OpenSection where
  indent : Nat
  key : String
  line : Nat
  children : List Node

/-- The state of reading: the open sections, innermost first, the nodes outside of them, and the
invalid lines. -/
structure Reading where
  stack : List OpenSection
  roots : List Node
  faults : List (Nat × Fault)

namespace Reading

def start : Reading := ⟨[], [], []⟩

def attach (r : Reading) (n : Node) : Reading :=
  match r.stack with
  | [] => { r with roots := r.roots ++ [n] }
  | s :: ss => { r with stack := { s with children := s.children ++ [n] } :: ss }

/-- Closes the innermost sections for which `p` holds, handing `finished` on to the section that
stays or else to the roots. -/
def closeWhile (p : OpenSection → Bool) (roots : List Node) :
    List Node → List OpenSection → List OpenSection × List Node
  | finished, [] => ([], roots ++ finished)
  | finished, s :: ss =>
    let s := { s with children := s.children ++ finished }
    if p s then closeWhile p roots [.heading s.key s.line s.children] ss else (s :: ss, roots)

def close (p : OpenSection → Bool) (r : Reading) : Reading :=
  let (stack, roots) := closeWhile p r.roots [] r.stack
  { r with stack := stack, roots := roots }

def line (r : Reading) (number : Nat) (raw : List Char) : Reading :=
  let text := dropComment raw
  let content := Text.trim text
  if content.isEmpty then r
  else
    let indent := Text.byteLength (text.takeWhile Text.isBlank)
    let r := r.close fun s => indent ≤ s.indent
    match Content.of content with
    | .heading key => { r with stack := ⟨indent, key, number, []⟩ :: r.stack }
    | .entry key value => r.attach (.entry key value number)
    | .invalid text => { r with faults := r.faults ++ [(number, .invalidLine text)] }

def lines (r : Reading) (number : Nat) : List (List Char) → Reading
  | [] => r
  | l :: ls => (r.line number l).lines (number + 1) ls

end Reading

def read (text : String) : List Node × List (Nat × Fault) :=
  let r := (Reading.start.lines 1 (Text.splitOn '\n' text.toList)).close fun _ => true
  (r.roots, r.faults)

def get? (key : String) : List Node → Option String
  | [] => none
  | .entry k v _ :: ns => if k = key then some v else get? key ns
  | .heading .. :: ns => get? key ns

end ItemLexicon.Outline
