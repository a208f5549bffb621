import ItemLexicon.Proofs.PatternRewriting

namespace ItemLexicon.Pattern

namespace Openings

/-- The open brackets stand in the text where they are noted. -/
def ArePlaced (o : Openings) (s : List Char) : Prop :=
  (∀ n ∈ o.optionals, s[n]? = some '[') ∧ ∀ n ∈ o.choices, s[n]? = some '('

instance (o : Openings) (s : List Char) : Decidable (o.ArePlaced s) :=
  inferInstanceAs (Decidable (_ ∧ _))

end Openings

def Found.IsPlaced (s : List Char) : Found → Prop
  | .group start stop bracket =>
    start < stop ∧ s[start]? = some (opener bracket) ∧ s[stop]? = some bracket
  | .surplus place bracket => s[place]? = some bracket
  | .nothing => True

instance (s : List Char) : (f : Found) → Decidable (f.IsPlaced s)
  | .group .. => inferInstanceAs (Decidable (_ ∧ _ ∧ _))
  | .surplus .. => inferInstanceAs (Decidable (_ = _))
  | .nothing => inferInstanceAs (Decidable True)

namespace Expander

def take? (x : Expander) (depth : Nat) : Option (Openings × Expander) := do
  let frames := x.frames ++ List.replicate (depth + 1 - x.frames.length) .empty
  let o ← frames[depth]?
  return (o, ⟨frames.set depth .empty⟩)

def put? (x : Expander) (depth : Nat) (o : Openings) : Option Expander :=
  if depth < x.frames.length then some (x.put depth o) else none

def each? {α : Type} (f : List Char → Expander → Option (List α × Expander)) :
    List (List Char) → Expander → Option (List α × Expander)
  | [], x => some ([], x)
  | s :: ss, x => do
    let (first, x) ← f s x
    let (rest, x) ← each? f ss x
    return (first ++ rest, x)

def level (f : List Char → Expander → List (Except Fault (List Char)) × Expander) (depth : Nat)
    (s : List Char) (x : Expander) : List (Except Fault (List Char)) × Expander :=
  if !s.any isGroupMark then ([.ok s], x)
  else
    let (o, x) := x.take depth
    let (o, found) := o.clear.scan 0 s
    let (all, x) :=
      match found with
      | .group start stop bracket => each f (replacements s start stop bracket) x
      | .surplus place bracket => ([.error (.tooManyBrackets place bracket)], x)
      | .nothing => (o.unclosed?.toList.map .error, x)
    (all, x.put depth o)

def level? (f : List Char → Expander → Option (List (Except Fault (List Char)) × Expander))
    (depth : Nat) (s : List Char) (x : Expander) :
    Option (List (Except Fault (List Char)) × Expander) :=
  if !s.any isGroupMark then some ([.ok s], x)
  else do
    let (o, x) ← x.take? depth
    let (o, found) := o.clear.scan 0 s
    if o.ArePlaced s ∧ found.IsPlaced s then
      let (all, x) ←
        match found with
        | .group start stop bracket => each? f (replacements s start stop bracket) x
        | .surplus place bracket => some ([.error (.tooManyBrackets place bracket)], x)
        | .nothing => some (o.unclosed?.toList.map .error, x)
      let x ← x.put? depth o
      return (all, x)
    else none

def outcomes? : Nat → Nat → List Char → Expander →
    Option (List (Except Fault (List Char)) × Expander)
  | 0, depth => level? (fun _ x => some ([], x)) depth
  | closers + 1, depth => level? (outcomes? closers (depth + 1)) depth

def expand? (x : Expander) (s : List Char) : Option (Expansion × Expander) :=
  (outcomes? (s.countP isCloser) 0 s x).map fun r => (.ofOutcomes r.1, r.2)

end Expander

namespace Openings

variable {o : Openings} {s t : List Char}

theorem ArePlaced.append (h : o.ArePlaced s) (t : List Char) : o.ArePlaced (s ++ t) := by
  have extend {n : Nat} {c : Char} (hc : s[n]? = some c) : (s ++ t)[n]? = some c := by
    obtain ⟨inside, -⟩ := List.getElem?_eq_some_iff.mp hc
    rwa [List.getElem?_append_left inside]
  exact ⟨fun n hn => extend (h.1 n hn), fun n hn => extend (h.2 n hn)⟩

theorem ArePlaced.push (h : o.ArePlaced s) (c : Char) :
    (o.push s.length c).ArePlaced (s ++ [c]) := by
  have kept := h.append [c]
  have here : (s ++ [c])[s.length]? = some c := by simp
  rw [Openings.push]
  split
  · rename_i optional
    rw [optional] at here kept ⊢
    exact ⟨List.forall_mem_cons.mpr ⟨here, kept.1⟩, kept.2⟩
  · split
    · rename_i choice
      rw [choice] at here kept ⊢
      exact ⟨kept.1, List.forall_mem_cons.mpr ⟨here, kept.2⟩⟩
    · exact kept

theorem ArePlaced.pop? (h : o.ArePlaced s) {bracket : Char} {start : Nat} {o' : Openings}
    (popped : o.pop? bracket = some (start, o')) :
    s[start]? = some (opener bracket) ∧ o'.ArePlaced s := by
  rw [Openings.pop?] at popped
  split at popped
  · rename_i square
    split at popped
    · rename_i known
      cases popped
      rw [ArePlaced, known, List.forall_mem_cons] at h
      exact ⟨by rw [square]; exact h.1.1, h.1.2, h.2⟩
    · cases popped
  · rename_i round
    split at popped
    · rename_i known
      cases popped
      rw [ArePlaced, known, List.forall_mem_cons] at h
      exact ⟨by rw [opener, if_neg (by simpa using round)]; exact h.2.1, h.1, h.2.2⟩
    · cases popped

theorem ArePlaced.scan (h : o.ArePlaced s) (t : List Char) :
    (o.scan s.length t).1.ArePlaced (s ++ t) ∧ (o.scan s.length t).2.IsPlaced (s ++ t) := by
  induction t generalizing o s with
  | nil => exact ⟨h.append [], trivial⟩
  | cons c t ih =>
    have here : (s ++ c :: t)[s.length]? = some c := by simp
    rw [Openings.scan]
    split
    · cases popped : o.pop? c with
      | none => exact ⟨h.append _, here⟩
      | some found =>
        obtain ⟨start, o'⟩ := found
        obtain ⟨opens, rest⟩ := h.pop? popped
        obtain ⟨inside, -⟩ := List.getElem?_eq_some_iff.mp opens
        exact ⟨rest.append _, inside, by rwa [List.getElem?_append_left inside], here⟩
    · have rest := ih (h.push c)
      rwa [List.length_append, List.length_singleton, ← List.append_cons] at rest

end Openings

namespace Expander

theorem take?_eq (x : Expander) (depth : Nat) : x.take? depth = some (x.take depth) := by
  have inside : depth < (x.frames ++
      List.replicate (depth + 1 - x.frames.length) Openings.empty).length := by
    rw [List.length_append, List.length_replicate]
    omega
  rw [take?, take]
  simp only [List.getElem?_eq_getElem inside, Option.getD_some]
  rfl

theorem length_frames_take (x : Expander) (depth : Nat) :
    x.frames.length ≤ (x.take depth).2.frames.length ∧
      depth < (x.take depth).2.frames.length := by
  simp only [take, List.length_set, List.length_append, List.length_replicate]
  omega

theorem put?_eq {x : Expander} {depth : Nat} (h : depth < x.frames.length) (o : Openings) :
    x.put? depth o = some (x.put depth o) := if_pos h

theorem length_frames_put (x : Expander) (depth : Nat) (o : Openings) :
    (x.put depth o).frames.length = x.frames.length := List.length_set

theorem each?_eq {α : Type} {f : List Char → Expander → List α × Expander}
    {f' : List Char → Expander → Option (List α × Expander)}
    (h : ∀ s x, f' s x = some (f s x) ∧ x.frames.length ≤ (f s x).2.frames.length)
    (ss : List (List Char)) (x : Expander) :
    each? f' ss x = some (each f ss x) ∧ x.frames.length ≤ (each f ss x).2.frames.length := by
  induction ss generalizing x with
  | nil => exact ⟨rfl, Nat.le_refl _⟩
  | cons s ss ih =>
    obtain ⟨first, grown⟩ := h s x
    obtain ⟨rest, grown'⟩ := ih (f s x).2
    refine ⟨?_, Nat.le_trans grown grown'⟩
    rw [each?, first]
    simp only [Option.bind_eq_bind, Option.bind_some, rest]
    rfl

theorem each_nil {α : Type} (ss : List (List Char)) (x : Expander) :
    each (fun _ x => (([] : List α), x)) ss x = ([], x) := by
  induction ss with
  | nil => rfl
  | cons s ss ih =>
    simp only [each, ih]
    rfl

theorem outcomes_zero (depth : Nat) : outcomes 0 depth = level (fun _ x => ([], x)) depth := by
  funext s x
  unfold outcomes level
  dsimp only
  cases ((x.take depth).1.clear.scan 0 s).2 with
  | group => simp only [each_nil]
  | surplus => rfl
  | nothing => rfl

theorem outcomes_succ (closers depth : Nat) :
    outcomes (closers + 1) depth = level (outcomes closers (depth + 1)) depth := by
  funext s x
  conv => lhs; unfold outcomes
  unfold level
  dsimp only
  cases ((x.take depth).1.clear.scan 0 s).2 <;> rfl

theorem level?_eq {f : List Char → Expander → List (Except Fault (List Char)) × Expander}
    {f' : List Char → Expander → Option (List (Except Fault (List Char)) × Expander)}
    (h : ∀ s x, f' s x = some (f s x) ∧ x.frames.length ≤ (f s x).2.frames.length)
    (depth : Nat) (s : List Char) (x : Expander) : level? f' depth s x = some (level f depth s x) ∧
      x.frames.length ≤ (level f depth s x).2.frames.length := by
  rw [level?, level]
  cases marked : s.any isGroupMark with
  | false => exact ⟨rfl, Nat.le_refl _⟩
  | true =>
    obtain ⟨grown, inside⟩ := x.length_frames_take depth
    obtain ⟨opens, placed⟩ := Openings.ArePlaced.scan (o := (x.take depth).1.clear) (s := [])
      ⟨List.forall_mem_nil _, List.forall_mem_nil _⟩ s
    rw [List.length_nil, List.nil_append] at opens placed
    simp only [take?_eq, Option.bind_eq_bind, Option.bind_some, Bool.not_true,
      Bool.false_eq_true, if_false, if_pos (And.intro opens placed)]
    cases ((x.take depth).1.clear.scan 0 s).2 with
    | group start stop bracket =>
      obtain ⟨expanded, grown'⟩ := each?_eq h (replacements s start stop bracket) (x.take depth).2
      simp only [expanded, Option.bind_some, put?_eq (Nat.lt_of_lt_of_le inside grown')]
      exact ⟨rfl, by rw [length_frames_put]; exact Nat.le_trans grown grown'⟩
    | surplus place bracket =>
      simp only [Option.bind_some, put?_eq inside]
      exact ⟨rfl, by rwa [length_frames_put]⟩
    | nothing =>
      simp only [Option.bind_some, put?_eq inside]
      exact ⟨rfl, by rwa [length_frames_put]⟩

theorem outcomes?_eq (closers depth : Nat) (s : List Char) (x : Expander) :
    outcomes? closers depth s x = some (outcomes closers depth s x) ∧
      x.frames.length ≤ (outcomes closers depth s x).2.frames.length := by
  induction closers generalizing depth s x with
  | zero =>
    rw [outcomes?, outcomes_zero]
    exact level?_eq (fun _ _ => ⟨rfl, Nat.le_refl _⟩) depth s x
  | succ closers ih =>
    rw [outcomes?, outcomes_succ]
    exact level?_eq (ih (depth + 1)) depth s x

theorem expand?_eq (x : Expander) (s : List Char) : x.expand? s = some (x.expand s) := by
  rw [expand?, (outcomes?_eq ..).1]
  rfl

end Expander

end ItemLexicon.Pattern
