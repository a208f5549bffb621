import ItemLexicon.Proofs.PrintedOutline
import Mathlib.Data.List.Induction

/-! Where the lines of an outline go.  The section that a line belongs to is found from the
indentations alone. -/

namespace ItemLexicon.Outline

structure Line where
  number : Nat
  indent : Nat
  content : Content

namespace Line

def of? (number : Nat) (raw : List Char) : Option Line :=
  let text := dropComment raw
  if (Text.trim text).isEmpty then none
  else some ⟨number, Text.byteLength (text.takeWhile Text.isBlank), .of (Text.trim text)⟩

def allFrom (number : Nat) (raws : List (List Char)) : List Line :=
  (raws.zipIdx number).filterMap fun raw => of? raw.2 raw.1

def all (text : String) : List Line := allFrom 1 (Text.splitOn '\n' text.toList)

def isNode (l : Line) : Bool :=
  match l.content with
  | .invalid _ => false
  | _ => true

def fault? (l : Line) : Option (Nat × Fault) :=
  match l.content with
  | .invalid text => some (l.number, .invalidLine text)
  | _ => none

/-- A section that is indented less than a later line and than all lines in between. -/
structure Encloses (ls : List Line) (s l : Line) : Prop where
  mem : s ∈ ls
  heading : ∃ key, s.content = .heading key
  earlier : s.number < l.number
  shallower : s.indent < l.indent
  between : ∀ m ∈ ls, s.number < m.number → m.number < l.number → s.indent < m.indent

def IsParent (ls : List Line) (l : Line) : Option Nat → Prop
  | some number =>
    ∃ s, Encloses ls s l ∧ s.number = number ∧ ∀ t, Encloses ls t l → t.number ≤ s.number
  | none => ∀ s, ¬Encloses ls s l

end Line

/-- A node without what is inside it, and the number of the section that it stands in. -/
structure Place where
  parent : Option Nat
  number : Nat
  content : Content

mutual

def Node.places (parent : Option Nat) : Node → List Place
  | .entry key value number => [⟨parent, number, .entry key value⟩]
  | .heading key number children =>
    ⟨parent, number, .heading key⟩ :: placesAll (some number) children

def placesAll (parent : Option Nat) : List Node → List Place
  | [] => []
  | n :: ns => n.places parent ++ placesAll parent ns

end

theorem placesAll_append (parent : Option Nat) (ns ns' : List Node) :
    placesAll parent (ns ++ ns') = placesAll parent ns ++ placesAll parent ns' := by
  induction ns with
  | nil => rfl
  | cons n ns ih => rw [List.cons_append, placesAll, placesAll, ih, List.append_assoc]

theorem placesAll_singleton (parent : Option Nat) (n : Node) :
    placesAll parent [n] = n.places parent := List.append_nil _

namespace Line

theorem allFrom_cons (number : Nat) (raw : List Char) (raws : List (List Char)) :
    allFrom number (raw :: raws) = (of? number raw).toList ++ allFrom (number + 1) raws := by
  rw [allFrom, List.zipIdx_cons, List.filterMap_cons, allFrom]
  cases of? number raw <;> rfl

theorem number_of? {number : Nat} {raw : List Char} {l : Line} (h : of? number raw = some l) :
    l.number = number := by
  rw [of?] at h
  split at h
  · cases h
  · cases h
    rfl

theorem number_fault? {l : Line} {f : Nat × Fault} (h : l.fault? = some f) : f.1 = l.number := by
  rw [fault?] at h
  split at h
  · cases h
    rfl
  · cases h

theorem le_number_of_mem_allFrom {number : Nat} {raws : List (List Char)} {l : Line}
    (h : l ∈ allFrom number raws) : number ≤ l.number := by
  obtain ⟨⟨raw, n⟩, hraw, hl⟩ := List.mem_filterMap.mp h
  rw [number_of? hl]
  exact (List.mem_zipIdx hraw).1

theorem pairwise_allFrom (number : Nat) (raws : List (List Char)) :
    (allFrom number raws).Pairwise fun l m => l.number < m.number := by
  induction raws generalizing number with
  | nil => exact List.Pairwise.nil
  | cons raw raws ih =>
    rw [allFrom_cons]
    cases h : of? number raw with
    | none => exact ih (number + 1)
    | some l =>
      refine List.pairwise_cons.mpr ⟨fun m hm => ?_, ih (number + 1)⟩
      rw [number_of? h]
      exact le_number_of_mem_allFrom hm

variable {ls : List Line} {l s : Line}

theorem encloses_concat_iff {new : Line} (later : l.number < new.number) :
    Encloses (ls ++ [new]) s l ↔ Encloses ls s l := by
  constructor
  · intro h
    refine ⟨?_, h.heading, h.earlier, h.shallower, fun m hm =>
      h.between m (List.mem_append_left _ hm)⟩
    rcases List.mem_append.mp h.mem with mem | mem
    · exact mem
    · have earlier := h.earlier
      rw [List.mem_singleton.mp mem] at earlier
      omega
  · intro h
    refine ⟨List.mem_append_left _ h.mem, h.heading, h.earlier, h.shallower, fun m hm hs hl => ?_⟩
    rcases List.mem_append.mp hm with hm | hm
    · exact h.between m hm hs hl
    · rw [List.mem_singleton.mp hm] at hl
      omega

theorem isParent_concat_iff {new : Line} (later : l.number < new.number) {parent : Option Nat} :
    l.IsParent (ls ++ [new]) parent ↔ l.IsParent ls parent := by
  cases parent <;> simp only [IsParent, encloses_concat_iff later]

structure IsOpen (ls : List Line) (s : Line) : Prop where
  mem : s ∈ ls
  heading : ∃ key, s.content = .heading key
  behind : ∀ m ∈ ls, s.number < m.number → s.indent < m.indent

theorem encloses_last_iff (last : ∀ m ∈ ls, m.number < l.number) :
    Encloses (ls ++ [l]) s l ↔ IsOpen ls s ∧ s.indent < l.indent := by
  constructor
  · intro h
    have mem : s ∈ ls := by
      rcases List.mem_append.mp h.mem with mem | mem
      · exact mem
      · have earlier := h.earlier
        rw [List.mem_singleton.mp mem] at earlier
        omega
    exact ⟨⟨mem, h.heading, fun m hm hs => h.between m (List.mem_append_left _ hm) hs (last m hm)⟩,
      h.shallower⟩
  · rintro ⟨h, shallower⟩
    refine ⟨List.mem_append_left _ h.mem, h.heading, last s h.mem, shallower, fun m hm hs hl => ?_⟩
    rcases List.mem_append.mp hm with hm | hm
    · exact h.behind m hm hs
    · rw [List.mem_singleton.mp hm] at hl
      omega

theorem isOpen_concat_iff (last : ∀ m ∈ ls, m.number < l.number) : IsOpen (ls ++ [l]) s ↔
    (IsOpen ls s ∧ s.indent < l.indent) ∨ (s = l ∧ ∃ key, l.content = .heading key) := by
  constructor
  · intro h
    rcases List.mem_append.mp h.mem with mem | mem
    · have shallower := h.behind l (List.mem_append_right _ List.mem_cons_self) (last s mem)
      exact .inl ⟨⟨mem, h.heading, fun m hm => h.behind m (List.mem_append_left _ hm)⟩, shallower⟩
    · have same := List.mem_singleton.mp mem
      exact .inr ⟨same, same ▸ h.heading⟩
  · rintro (⟨h, shallower⟩ | ⟨rfl, heading⟩)
    · refine ⟨List.mem_append_left _ h.mem, h.heading, fun m hm hs => ?_⟩
      rcases List.mem_append.mp hm with hm | hm
      · exact h.behind m hm hs
      · rw [List.mem_singleton.mp hm]
        exact shallower
    · refine ⟨List.mem_append_right _ List.mem_cons_self, heading, fun m hm hs => ?_⟩
      rcases List.mem_append.mp hm with hm | hm
      · have := last m hm
        omega
      · rw [List.mem_singleton.mp hm] at hs
        omega

end Line

def OpenSection.heading (s : OpenSection) : Line := ⟨s.line, s.indent, .heading s.key⟩

namespace Reading

def innermost : List OpenSection → Option Nat
  | [] => none
  | s :: _ => some s.line

def placesOver (roots : List Node) : List OpenSection → List Place
  | [] => placesAll none roots
  | s :: ss => placesOver roots ss ++
    ⟨innermost ss, s.line, .heading s.key⟩ :: placesAll (some s.line) s.children

def places (r : Reading) : List Place := placesOver r.roots r.stack

theorem placesOver_closeWhile (p : OpenSection → Bool) (roots finished : List Node)
    (stack : List OpenSection) :
    placesOver (closeWhile p roots finished stack).2 (closeWhile p roots finished stack).1 =
      placesOver roots stack ++ placesAll (innermost stack) finished := by
  induction stack generalizing finished with
  | nil => exact placesAll_append ..
  | cons s stack ih =>
    rw [closeWhile]
    split
    · rw [ih, placesAll_singleton, Node.places, placesAll_append, placesOver]
      simp only [List.append_assoc, List.cons_append, innermost]
    · simp only [placesOver, placesAll_append, innermost, List.append_assoc, List.cons_append]

@[simp] theorem places_close (p : OpenSection → Bool) (r : Reading) :
    (r.close p).places = r.places := by
  rw [places, close, placesOver_closeWhile]
  exact List.append_nil _

@[simp] theorem faults_close (p : OpenSection → Bool) (r : Reading) :
    (r.close p).faults = r.faults := rfl

theorem places_attach (r : Reading) (n : Node) :
    (r.attach n).places = r.places ++ n.places (innermost r.stack) := by
  rw [attach]
  split
  · rename_i empty
    rw [places, places, empty, placesOver, placesOver, placesAll_append, placesAll_singleton,
      innermost]
  · rename_i s ss stack
    rw [places, places, stack]
    simp only [placesOver, placesAll_append, placesAll_singleton, innermost, List.append_assoc,
      List.cons_append]

def take (r : Reading) (l : Line) : Reading :=
  let r := r.settle l.indent
  match l.content with
  | .heading key => r.push ⟨l.indent, key, l.number, []⟩
  | .entry key value => r.attach (.entry key value l.number)
  | .invalid text => { r with faults := r.faults ++ [(l.number, .invalidLine text)] }

theorem line_eq (r : Reading) (number : Nat) (raw : List Char) :
    r.line number raw = (Line.of? number raw).toList.foldl take r := by
  rw [line, Line.of?]
  dsimp only
  split
  · rfl
  · simp only [Option.toList_some, List.foldl_cons, List.foldl_nil, take, settle]
    cases Content.of (Text.trim (dropComment raw)) <;> rfl

theorem lines_eq_foldl (r : Reading) (number : Nat) (raws : List (List Char)) :
    r.lines number raws = (Line.allFrom number raws).foldl take r := by
  induction raws generalizing r number with
  | nil => rfl
  | cons raw raws ih => rw [lines, ih, line_eq, Line.allFrom_cons, List.foldl_append]

def headings (r : Reading) : List Line := r.stack.map OpenSection.heading

theorem headings_closeWhile (indent : Nat) (roots finished : List Node)
    (stack : List OpenSection) :
    (closeWhile (fun s => indent ≤ s.indent) roots finished stack).1.map OpenSection.heading =
      (stack.map OpenSection.heading).dropWhile fun s => indent ≤ s.indent := by
  induction stack generalizing finished with
  | nil => rfl
  | cons s stack ih =>
    rw [closeWhile, List.map_cons, List.dropWhile_cons]
    by_cases h : indent ≤ s.indent
    · simp only [h, decide_true, if_true, OpenSection.heading]
      exact ih _
    · simp only [h, decide_false, Bool.false_eq_true, if_false, OpenSection.heading]
      rfl

theorem headings_settle (r : Reading) (indent : Nat) :
    (r.settle indent).headings = r.headings.dropWhile fun s => indent ≤ s.indent :=
  headings_closeWhile indent r.roots [] r.stack

theorem headings_attach (r : Reading) (n : Node) : (r.attach n).headings = r.headings := by
  obtain ⟨stack, roots, faults⟩ := r
  cases stack <;> rfl

theorem innermost_eq (r : Reading) : innermost r.stack = r.headings.head?.map Line.number := by
  obtain ⟨stack, roots, faults⟩ := r
  cases stack <;> rfl

theorem headings_take (r : Reading) (l : Line) : (r.take l).headings =
    match l.content with
    | .heading _ => l :: (r.settle l.indent).headings
    | _ => (r.settle l.indent).headings := by
  obtain ⟨number, indent, content⟩ := l
  cases content with
  | entry => exact headings_attach ..
  | heading => rfl
  | invalid => rfl

theorem places_take (r : Reading) (l : Line) : (r.take l).places = r.places ++
    if l.isNode then [⟨innermost (r.settle l.indent).stack, l.number, l.content⟩] else [] := by
  have settled : (r.settle l.indent).places = r.places := places_close ..
  obtain ⟨number, indent, content⟩ := l
  rw [← settled]
  cases content with
  | entry => exact places_attach ..
  | heading => rfl
  | invalid => exact (List.append_nil _).symm

theorem faults_attach (r : Reading) (n : Node) : (r.attach n).faults = r.faults := by
  obtain ⟨stack, roots, faults⟩ := r
  cases stack <;> rfl

theorem stack_closeAll (r : Reading) : (r.close fun _ => true).stack = [] := by
  have staying := head?_closeWhile (fun _ => true) r.roots [] r.stack
  show (closeWhile (fun _ => true) r.roots [] r.stack).1 = []
  cases shape : (closeWhile (fun _ => true) r.roots [] r.stack).1 with
  | nil => rfl
  | cons s ss =>
    rw [shape] at staying
    exact absurd (staying s rfl) (by decide)

theorem faults_take (r : Reading) (l : Line) :
    (r.take l).faults = r.faults ++ l.fault?.toList := by
  obtain ⟨number, indent, content⟩ := l
  cases content with
  | entry => exact (faults_attach ..).trans (List.append_nil _).symm
  | heading => exact (List.append_nil _).symm
  | invalid => rfl

end Reading

theorem mem_dropWhile_indent_iff {indent : Nat} {ls : List Line}
    (falling : ls.Pairwise fun s t => t.indent < s.indent) {s : Line} :
    s ∈ ls.dropWhile (fun s => indent ≤ s.indent) ↔ s ∈ ls ∧ s.indent < indent := by
  induction ls with
  | nil => simp
  | cons t ls ih =>
    obtain ⟨below, rest⟩ := List.pairwise_cons.mp falling
    rw [List.dropWhile_cons]
    split
    · rename_i deep
      rw [ih rest, List.mem_cons]
      constructor
      · exact fun h => ⟨.inr h.1, h.2⟩
      · rintro ⟨rfl | h, shallow⟩
        · simp only [decide_eq_true_eq] at deep
          omega
        · exact ⟨h, shallow⟩
    · rename_i shallow
      simp only [decide_eq_true_eq, Nat.not_le] at shallow
      constructor
      · intro h
        refine ⟨h, ?_⟩
        rcases List.mem_cons.mp h with rfl | h
        · exact shallow
        · exact Nat.lt_trans (below s h) shallow
      · exact And.left

/-- What has come of the lines so far. -/
structure Reading.Holds (ls : List Line) (r : Reading) : Prop where
  ordered : r.headings.Pairwise fun s t => t.number < s.number
  isOpen : ∀ s, s ∈ r.headings ↔ Line.IsOpen ls s
  nodes : r.places.map (fun p => (p.number, p.content)) =
    (ls.filter Line.isNode).map fun l => (l.number, l.content)
  parents : ∀ p ∈ r.places, ∀ l ∈ ls, l.number = p.number → l.IsParent ls p.parent
  faults : r.faults = ls.filterMap Line.fault?

namespace Reading.Holds

variable {ls : List Line} {r : Reading} {l : Line}

theorem start : Holds [] .start where
  ordered := List.Pairwise.nil
  isOpen := fun _ => ⟨nofun, fun h => nomatch h.mem⟩
  nodes := rfl
  parents := nofun
  faults := rfl

theorem falling (h : Holds ls r) : r.headings.Pairwise fun s t => t.indent < s.indent := by
  refine h.ordered.imp_of_mem ?_
  intro s t hs ht lt
  exact ((h.isOpen t).mp ht).behind s ((h.isOpen s).mp hs).mem lt

theorem mem_headings_settle_iff (h : Holds ls r) (last : ∀ m ∈ ls, m.number < l.number) {s : Line} :
    s ∈ (r.settle l.indent).headings ↔ Line.Encloses (ls ++ [l]) s l := by
  rw [headings_settle, mem_dropWhile_indent_iff h.falling, h.isOpen, Line.encloses_last_iff last]

theorem ordered_settle (h : Holds ls r) (indent : Nat) :
    (r.settle indent).headings.Pairwise fun s t => t.number < s.number := by
  rw [headings_settle]
  exact h.ordered.sublist (List.dropWhile_sublist _)

theorem isParent_innermost (h : Holds ls r) (last : ∀ m ∈ ls, m.number < l.number) :
    l.IsParent (ls ++ [l]) (innermost (r.settle l.indent).stack) := by
  have mem := fun s => h.mem_headings_settle_iff last (s := s)
  have ordered := h.ordered_settle l.indent
  rw [innermost_eq]
  cases shape : (r.settle l.indent).headings with
  | nil =>
    intro s hs
    have absurd := (mem s).mpr hs
    rw [shape] at absurd
    cases absurd
  | cons s ss =>
    rw [shape] at mem ordered
    -- Open sections stand latest first, so the first one is the latest that encloses the line.
    refine ⟨s, (mem s).mp List.mem_cons_self, rfl, fun t ht => ?_⟩
    rcases List.mem_cons.mp ((mem t).mpr ht) with rfl | ht
    · exact Nat.le_refl _
    · exact Nat.le_of_lt ((List.pairwise_cons.mp ordered).1 t ht)

theorem take (h : Holds ls r) (last : ∀ m ∈ ls, m.number < l.number) :
    Holds (ls ++ [l]) (r.take l) where
  ordered := by
    rw [headings_take]
    split
    · refine List.pairwise_cons.mpr ⟨fun s hs => ?_, h.ordered_settle l.indent⟩
      exact ((h.mem_headings_settle_iff last).mp hs).earlier
    · exact h.ordered_settle l.indent
  isOpen := by
    intro s
    have left : s ∈ (r.settle l.indent).headings ↔ Line.IsOpen ls s ∧ s.indent < l.indent := by
      rw [headings_settle, mem_dropWhile_indent_iff h.falling, h.isOpen]
    rw [headings_take, Line.isOpen_concat_iff last]
    split
    · rename_i key heading
      rw [List.mem_cons, left, heading]
      constructor
      · rintro (rfl | h)
        · exact .inr ⟨rfl, key, rfl⟩
        · exact .inl h
      · rintro (h | ⟨rfl, -⟩)
        · exact .inr h
        · exact .inl rfl
    · rename_i other
      rw [left]
      constructor
      · exact .inl
      · rintro (h | ⟨-, key, heading⟩)
        · exact h
        · exact absurd heading (other key)
  nodes := by
    rw [places_take, List.map_append, h.nodes, List.filter_append, List.map_append]
    cases hl : l.isNode <;> simp [hl]
  parents := by
    intro p hp m hm same
    rw [places_take, List.mem_append] at hp
    rcases hp with hp | hp
    · -- an earlier node, whose number is that of an earlier line
      have earlier : (p.number, p.content) ∈ (ls.filter Line.isNode).map
          fun l => (l.number, l.content) := h.nodes ▸ List.mem_map.mpr ⟨p, hp, rfl⟩
      obtain ⟨m', hm', both⟩ := List.mem_map.mp earlier
      have before : p.number < l.number := by
        rw [← (Prod.mk.inj both).1]
        exact last m' (List.mem_of_mem_filter hm')
      rcases List.mem_append.mp hm with hm | hm
      · exact (Line.isParent_concat_iff (last m hm)).mpr (h.parents p hp m hm same)
      · rw [List.mem_singleton.mp hm] at same
        omega
    · split at hp
      · rw [List.mem_singleton.mp hp] at same ⊢
        rcases List.mem_append.mp hm with hm | hm
        · exact absurd same (Nat.ne_of_lt (last m hm))
        · rw [List.mem_singleton.mp hm]
          exact h.isParent_innermost last
      · cases hp
  faults := by
    rw [faults_take, h.faults, List.filterMap_append]
    cases hl : l.fault? <;> simp [hl]

theorem foldl_take (ordered : ls.Pairwise fun l m => l.number < m.number) :
    Holds ls (ls.foldl Reading.take .start) := by
  induction ls using List.reverseRecOn with
  | nil => exact .start
  | append_singleton ls l ih =>
    obtain ⟨front, -, across⟩ := List.pairwise_append.mp ordered
    rw [List.foldl_append]
    exact (ih front).take fun m hm => across m hm l List.mem_cons_self

end Reading.Holds

/-- Every line that is not blank becomes one node or one fault, in order.  A node stands in the last
section before it that is indented less than it and than all lines in between. -/
theorem placesAll_read (text : String) :
    (placesAll none (read text).1).map (fun p => (p.number, p.content)) =
      ((Line.all text).filter Line.isNode).map (fun l => (l.number, l.content)) ∧
    (read text).2 = (Line.all text).filterMap Line.fault? ∧
    (placesAll none (read text).1).Pairwise (fun p p' => p.number < p'.number) ∧
    (read text).2.Pairwise (fun f f' => f.1 < f'.1) ∧
    ∀ p ∈ placesAll none (read text).1, ∀ l ∈ Line.all text, l.number = p.number →
      l.IsParent (Line.all text) p.parent := by
  have ordered : (Line.all text).Pairwise fun l m => l.number < m.number :=
    Line.pairwise_allFrom ..
  have holds := Reading.Holds.foldl_take ordered
  obtain ⟨r, hr⟩ : ∃ r, (Line.all text).foldl Reading.take .start = r := ⟨_, rfl⟩
  rw [hr] at holds
  have taken : Reading.start.lines 1 (Text.splitOn '\n' text.toList) = r :=
    (Reading.lines_eq_foldl ..).trans hr
  have places : placesAll none (read text).1 = r.places := by
    rw [← Reading.places_close fun _ => true, Reading.places, Reading.stack_closeAll, read, taken]
    rfl
  have faults : (read text).2 = r.faults := by rw [read, taken, Reading.faults_close]
  rw [places, faults]
  refine ⟨holds.nodes, holds.faults, ?_, ?_, holds.parents⟩
  · have numbers : (r.places.map fun p => (p.number, p.content)).Pairwise
        fun p p' => p.1 < p'.1 := by
      rw [holds.nodes, List.pairwise_map]
      exact ordered.sublist List.filter_sublist
    rwa [List.pairwise_map] at numbers
  · rw [holds.faults]
    refine ordered.filterMap _ fun l m lt f hf f' hf' => ?_
    rw [Line.number_fault? hf, Line.number_fault? hf']
    exact lt

end ItemLexicon.Outline
