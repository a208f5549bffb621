namespace ItemLexicon

inductive PrefixCode
  | unused
  | word (symbol : Nat)
  | fork (zero one : PrefixCode)

namespace PrefixCode

def read? : PrefixCode → List Bool → Option (Nat × List Bool)
  | unused, _ => none
  | word s, bits => some (s, bits)
  | fork _ _, [] => none
  | fork zero _, false :: bits => zero.read? bits
  | fork _ one, true :: bits => one.read? bits

def isFull : PrefixCode → Bool
  | unused => false
  | word _ => true
  | fork zero one => zero.isFull && one.isFull

def fill : Nat → Nat → List (Nat × Nat) → PrefixCode × List (Nat × Nat)
  | _, _, [] => (unused, [])
  | room, depth, (size, symbol) :: ws =>
    if size = depth then (word symbol, ws)
    else match room with
      | 0 => (unused, (size, symbol) :: ws)
      | room + 1 =>
        let (zero, ws) := fill room (depth + 1) ((size, symbol) :: ws)
        let (one, ws) := fill room (depth + 1) ws
        (fork zero one, ws)

def maxSize : Nat := 15

def wordsOf (sizes : List Nat) : List (Nat × Nat) :=
  ((List.range (maxSize + 1)).drop 1).flatMap fun n =>
    (sizes.zipIdx.filter (·.1 = n))

/-- The canonical code in which the word of the symbol `s` has the length at place `s`, zero meaning
no word.  The lengths must leave no gap, except that there may be no word, or one word of a single
bit. -/
def ofSizes? (sizes : List Nat) : Option PrefixCode :=
  let ws := wordsOf sizes
  let (code, rest) := fill maxSize 0 ws
  if rest.isEmpty && (code.isFull || ws.isEmpty || ws.map (·.1) = [1]) then some code else none

end PrefixCode

end ItemLexicon
