import ItemLexicon.Definition.Fault

namespace ItemLexicon

namespace Segment

/-- The nesting depth after a character.  A closer outside every group has no effect. -/
def depthAfter (depth : Nat) (c : Char) : Nat :=
  if c == '\x7b' || c == '[' then depth + 1
  else if c == '\x7d' || c == ']' then depth - 1
  else depth

def isBracket (c : Char) : Bool :=
  c == '\x7b' || c == '[' || c == '\x7d' || c == ']'

def split (sep : Char) (depth : Nat) : List Char → List (List Char)
  | [] => [[]]
  | c :: s =>
    if c == sep && depth == 0 && !isBracket c then [] :: split sep 0 s
    else match split sep (depthAfter depth c) s with
      | [] => [[c]]
      | p :: ps => (c :: p) :: ps

def segments (sep : Char) (s : List Char) : List (List Char) := (split sep 0 s).map Text.trim

def nonEmpty (sep : Char) (s : List Char) : List (List Char) :=
  (segments sep s).filter (!·.isEmpty)

theorem depthAfter_of_not_isBracket {c : Char} (h : isBracket c = false) (n : Nat) :
    depthAfter n c = n := by
  simp_all [depthAfter, isBracket]

variable {sep : Char}

theorem split_ne_nil (sep : Char) (depth : Nat) (s : List Char) : split sep depth s ≠ [] := by
  cases s with
  | nil => exact List.cons_ne_nil _ _
  | cons c s =>
    rw [split]
    split
    · exact List.cons_ne_nil _ _
    · split <;> exact List.cons_ne_nil _ _

theorem split_cons {depth : Nat} {c : Char}
    (h : (c == sep && depth == 0 && !isBracket c) = false) (s : List Char) :
    split sep depth (c :: s) = (split sep (depthAfter depth c) s).modifyHead (c :: ·) := by
  rw [split, h]
  cases parts : split sep (depthAfter depth c) s with
  | nil => exact absurd parts (split_ne_nil _ _ _)
  | cons p ps => rfl

def IsPart (sep : Char) (p : List Char) : Prop :=
  ∀ s, split sep 0 (p ++ s) = (split sep 0 s).modifyHead (p ++ ·)

namespace IsPart

variable {p q : List Char}

theorem append (hp : IsPart sep p) (hq : IsPart sep q) : IsPart sep (p ++ q) := by
  intro s
  rw [List.append_assoc, hp, hq, List.modifyHead_modifyHead]
  congr 1
  funext t
  exact (List.append_assoc p q t).symm

theorem of_plain (h : ∀ c ∈ p, c ≠ sep ∧ isBracket c = false) : IsPart sep p := by
  intro s
  induction p with
  | nil => exact (List.modifyHead_id ▸ rfl)
  | cons c p ih =>
    obtain ⟨⟨ne, plain⟩, rest⟩ := List.forall_mem_cons.mp h
    rw [List.cons_append, split_cons (by simp [ne]), depthAfter_of_not_isBracket plain, ih rest,
      List.modifyHead_modifyHead]
    rfl

theorem split_eq (h : IsPart sep p) : split sep 0 p = [p] := by
  have alone := h []
  rwa [List.append_nil, split, List.modifyHead_cons, List.append_nil] at alone

end IsPart

end Segment

abbrev States := Dictionary String

namespace States

def addAll (states : States) : List (List Char) → Except Fault States
  | [] => .ok states
  | s :: rest =>
    match Text.cut '=' s with
    | none => .error (.malformedState (String.ofList s))
    | some (key, value) =>
      addAll (Dictionary.insert (String.ofList (Text.trim key)) (String.ofList (Text.trim value))
        states) rest

def read (s : List Char) : Except Fault States := addAll [] (Segment.nonEmpty ',' s)

end States

end ItemLexicon
