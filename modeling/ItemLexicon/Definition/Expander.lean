import ItemLexicon.Definition.Pattern

/-! Expansion of patterns in a work space that is kept from one pattern to the next, with two stacks
of places where groups open for every depth of rewriting. -/

namespace ItemLexicon.Pattern

structure Openings where
  optionals : List Nat
  choices : List Nat
  deriving DecidableEq

inductive Found
  | group (start stop : Nat) (bracket : Char)
  | surplus (place : Nat) (bracket : Char)
  | nothing
  deriving DecidableEq

namespace Openings

def empty : Openings := ⟨[], []⟩

def clear (o : Openings) : Openings := { o with optionals := [], choices := [] }

def push (o : Openings) (place : Nat) (c : Char) : Openings :=
  if c = '[' then { o with optionals := place :: o.optionals }
  else if c = '(' then { o with choices := place :: o.choices }
  else o

def pop? (o : Openings) (bracket : Char) : Option (Nat × Openings) :=
  if bracket = ']' then
    match o.optionals with
    | start :: rest => some (start, { o with optionals := rest })
    | [] => none
  else
    match o.choices with
    | start :: rest => some (start, { o with choices := rest })
    | [] => none

def scan (o : Openings) (place : Nat) : List Char → Openings × Found
  | [] => (o, .nothing)
  | c :: s =>
    if isCloser c then
      match o.pop? c with
      | some (start, o) => (o, .group start place c)
      | none => (o, .surplus place c)
    else scan (o.push place c) (place + 1) s

/-- The fault of a bracket that is left open: the last `[`, or else the last `(`. -/
def unclosed? (o : Openings) : Option Fault :=
  (o.optionals.head?.map (Fault.notEnoughBrackets · '[')).or
    (o.choices.head?.map (Fault.notEnoughBrackets · '('))

end Openings

def replacements (s : List Char) (start stop : Nat) (bracket : Char) : List (List Char) :=
  rewrites bracket (s.take start) ((s.take stop).drop (start + 1)) (s.drop (stop + 1))

structure Expander where
  frames : List Openings
  deriving DecidableEq

namespace Expander

def new : Expander := ⟨[]⟩

def take (x : Expander) (depth : Nat) : Openings × Expander :=
  let frames := x.frames ++ List.replicate (depth + 1 - x.frames.length) .empty
  (frames[depth]?.getD .empty, ⟨frames.set depth .empty⟩)

def put (x : Expander) (depth : Nat) (o : Openings) : Expander := ⟨x.frames.set depth o⟩

def each {α : Type} (f : List Char → Expander → List α × Expander) :
    List (List Char) → Expander → List α × Expander
  | [], x => ([], x)
  | s :: ss, x =>
    let (first, x) := f s x
    let (rest, x) := each f ss x
    (first ++ rest, x)

/-- What a text expands to at a depth, in order and with repetitions, where `closers` is at least
the number of its closing brackets. -/
def outcomes : Nat → Nat → List Char → Expander → List (Except Fault (List Char)) × Expander
  | closers, depth, s, x =>
    if !s.any isGroupMark then ([.ok s], x)
    else
      let (o, x) := x.take depth
      let (o, found) := o.clear.scan 0 s
      let (all, x) :=
        match found, closers with
        | .group start stop bracket, closers + 1 =>
          each (outcomes closers (depth + 1)) (replacements s start stop bracket) x
        | .group .., 0 => ([], x)
        | .surplus place bracket, _ => ([.error (.tooManyBrackets place bracket)], x)
        | .nothing, _ => (o.unclosed?.toList.map .error, x)
      (all, x.put depth o)

def expand (x : Expander) (s : List Char) : Expansion × Expander :=
  let (all, x) := outcomes (s.countP isCloser) 0 s x
  (.ofOutcomes all, x)

end Expander

end ItemLexicon.Pattern
