import ItemLexicon.Definition.Outline
import ItemLexicon.Proofs.FilePaths

namespace ItemLexicon

namespace Text

theorem splitOn_join {sep : Char} {ps : List (List Char)} (h : ∀ p ∈ ps, sep ∉ p) (ne : ps ≠ []) :
    splitOn sep (join [sep] ps) = ps := by
  induction ps with
  | nil => exact absurd rfl ne
  | cons p ps ih =>
    obtain ⟨hp, rest⟩ := List.forall_mem_cons.mp h
    cases ps with
    | nil => exact splitOn_of_notMem hp
    | cons q ps =>
      rw [join, List.append_assoc, List.singleton_append, splitOn_append_cons, splitOn_of_notMem hp,
        ih rest (List.cons_ne_nil q ps)]
      rfl

theorem splitOn_flatMap {sep : Char} {ps : List (List Char)} (h : ∀ p ∈ ps, sep ∉ p) :
    splitOn sep (ps.flatMap (· ++ [sep])) = ps ++ [[]] := by
  induction ps with
  | nil => rfl
  | cons p ps ih =>
    obtain ⟨hp, rest⟩ := List.forall_mem_cons.mp h
    rw [List.flatMap_cons, List.append_assoc, List.singleton_append, splitOn_append_cons,
      splitOn_of_notMem hp, ih rest]
    rfl

end Text

namespace Outline

def escape : List Char → List Char
  | [] => []
  | c :: s => if c = '#' then '#' :: '#' :: escape s else c :: escape s

def printedLine (depth : Nat) (s : List Char) : List Char := escape (List.replicate depth ' ' ++ s)

def entryText (key value : String) : List Char := key.toList ++ " = ".toList ++ value.toList

def headingText (key : String) : List Char := key.toList ++ ":".toList

mutual

def Node.printed (depth : Nat) : Node → List (List Char)
  | .entry key value _ => [printedLine depth (entryText key value)]
  | .heading key _ children =>
    printedLine depth (headingText key) :: printedAll (depth + 1) children

def printedAll (depth : Nat) : List Node → List (List Char)
  | [] => []
  | n :: ns => n.printed depth ++ printedAll depth ns

end

mutual

def Node.size : Node → Nat
  | .entry .. => 1
  | .heading _ _ children => sizeAll children + 1

def sizeAll : List Node → Nat
  | [] => 0
  | n :: ns => n.size + sizeAll ns

end

mutual

def Node.numbered (number : Nat) : Node → Node
  | .entry key value _ => .entry key value number
  | .heading key _ children => .heading key number (numberedAll (number + 1) children)

def numberedAll (number : Nat) : List Node → List Node
  | [] => []
  | n :: ns => n.numbered number :: numberedAll (number + n.size) ns

end

/-- A text in one line without blanks at its ends. -/
structure IsField (s : String) : Prop where
  trim : Text.IsTrim s.toList
  line : '\n' ∉ s.toList

structure IsKey (s : String) : Prop extends IsField s where
  ne_nil : s.toList ≠ []
  noEquals : '=' ∉ s.toList

instance (s : String) : Decidable (IsField s) :=
  decidable_of_iff (Text.IsTrim s.toList ∧ '\n' ∉ s.toList)
    ⟨fun h => ⟨h.1, h.2⟩, fun h => ⟨h.trim, h.line⟩⟩

instance (s : String) : Decidable (IsKey s) :=
  decidable_of_iff (IsField s ∧ s.toList ≠ [] ∧ '=' ∉ s.toList)
    ⟨fun h => ⟨h.1, h.2.1, h.2.2⟩, fun h => ⟨h.toIsField, h.ne_nil, h.noEquals⟩⟩

inductive Node.IsProper : Node → Prop
  | entry {key value : String} (number : Nat) (hk : IsKey key) (hv : IsField value) :
      IsProper (.entry key value number)
  | heading {key : String} (number : Nat) {children : List Node} (hk : IsKey key)
      (inside : ∀ n ∈ children, IsProper n) : IsProper (.heading key number children)

theorem dropComment_escape (s : List Char) : dropComment (escape s) = s := by
  induction s with
  | nil => rfl
  | cons c s ih =>
    rw [escape]
    split
    · rename_i sign
      rw [dropComment, ih, sign]
    · rename_i other
      rw [dropComment, ih]
      · rintro t rfl
        exact absurd rfl other
      · rintro rfl
        exact absurd rfl other

theorem mem_escape {c : Char} {s : List Char} (h : c ∈ escape s) : c ∈ s := by
  induction s with
  | nil => exact h
  | cons d s ih =>
    rw [escape] at h
    split at h
    · rename_i sign
      simp only [List.mem_cons] at h
      rcases h with rfl | rfl | h
      · exact sign ▸ List.mem_cons_self
      · exact sign ▸ List.mem_cons_self
      · exact List.mem_cons_of_mem d (ih h)
    · rcases List.mem_cons.mp h with rfl | h
      · exact List.mem_cons_self
      · exact List.mem_cons_of_mem d (ih h)

mutual

theorem Node.length_printed (depth : Nat) : ∀ n : Node, (n.printed depth).length = n.size
  | .entry .. => rfl
  | .heading _ _ children => by
    rw [Node.printed, List.length_cons, length_printedAll (depth + 1) children, Node.size]

theorem length_printedAll (depth : Nat) :
    ∀ ns : List Node, (printedAll depth ns).length = sizeAll ns
  | [] => rfl
  | n :: ns => by
    rw [printedAll, List.length_append, n.length_printed, length_printedAll depth ns, sizeAll]

end

theorem printedAll_eq_flatMap (depth : Nat) (ns : List Node) :
    printedAll depth ns = ns.flatMap (Node.printed depth) := by
  induction ns with
  | nil => rfl
  | cons n ns ih => rw [printedAll, ih, List.flatMap_cons]

theorem notMem_printedLine (depth : Nat) {s : List Char} (h : '\n' ∉ s) :
    '\n' ∉ printedLine depth s := by
  intro inside
  rcases List.mem_append.mp (mem_escape inside) with inside | inside
  · cases List.eq_of_mem_replicate inside
  · exact h inside

theorem Node.IsProper.notMem {n : Node} (h : n.IsProper) (depth : Nat) {l : List Char}
    (hl : l ∈ n.printed depth) : '\n' ∉ l := by
  induction h generalizing depth with
  | entry number hk hv =>
    rw [List.mem_singleton.mp hl]
    exact notMem_printedLine depth (by simp [entryText, hk.line, hv.line])
  | heading number hk inside ih =>
    rw [printed, List.mem_cons, printedAll_eq_flatMap, List.mem_flatMap] at hl
    rcases hl with rfl | ⟨m, hm, hl⟩
    · exact notMem_printedLine depth (by simp [headingText, hk.line])
    · exact ih m hm (depth + 1) hl

theorem IsKey.exists_cons {key : String} (h : IsKey key) :
    ∃ c t, key.toList = c :: t ∧ Text.isBlank c = false := h.trim.exists_cons h.ne_nil

theorem trimmed_of_isField {s : String} (h : IsField s) : trimmed s.toList = s := by
  rw [trimmed, h.trim.trim_eq, String.ofList_toList]

theorem trimmed_concat_space {key : String} (h : IsKey key) : trimmed (key.toList ++ [' ']) = key := by
  obtain ⟨c, t, start, solid⟩ := h.exists_cons
  have front : Text.trimStart (key.toList ++ [' ']) = key.toList ++ [' '] := by
    rw [start, List.cons_append, Text.trimStart_cons solid]
  rw [trimmed, Text.trim, front, Text.trimEnd_concat_blank rfl, h.trim.finish, String.ofList_toList]

theorem trimmed_trimEnd_space {value : String} (h : IsField value) :
    trimmed (Text.trimEnd (' ' :: value.toList)) = value := by
  by_cases none : value.toList = []
  · rw [none]
    exact (String.toList_eq_nil_iff.mp none).symm
  · have kept := Text.trimEnd_append h.trim.finish none [' ']
    rw [List.singleton_append] at kept
    have start : Text.trimStart (' ' :: value.toList) = value.toList := h.trim.start
    rw [kept, trimmed, Text.trim, start, h.trim.finish, String.ofList_toList]

theorem of_entryText {key value : String} (hk : IsKey key) (hv : IsField value) :
    Content.of (Text.trimEnd (entryText key value)) = .entry key value := by
  have text : entryText key value = (key.toList ++ [' ']) ++ '=' :: ' ' :: value.toList := by
    simp [entryText]
  have absent : '=' ∉ key.toList ++ [' '] := by simp [hk.noEquals]
  rw [text, Text.trimEnd_append_cons rfl, Content.of, Text.cut_append_cons absent]
  simp only [trimmed_concat_space hk, trimmed_trimEnd_space hv]

theorem of_headingText {key : String} (hk : IsKey key) :
    Content.of (Text.trimEnd (headingText key)) = .heading key := by
  have absent : '=' ∉ key.toList ++ [':'] := by simp [hk.noEquals]
  have suffix : Text.dropSuffix? [':'] (key.toList ++ [':']) = some key.toList :=
    Text.dropSuffix?_eq_some_iff.mpr rfl
  rw [show headingText key = key.toList ++ [':'] from rfl, Text.trimEnd_append_cons rfl,
    Text.trimEnd_nil, Content.of, Text.cut_of_notMem absent]
  simp only [suffix, trimmed_of_isField hk.toIsField]

namespace Reading

theorem closeWhile_closeWhile {p q : OpenSection → Bool} (h : ∀ s, q s = true → p s = true)
    (roots finished : List Node) (stack : List OpenSection) :
    closeWhile p (closeWhile q roots finished stack).2 [] (closeWhile q roots finished stack).1 =
      closeWhile p roots finished stack := by
  induction stack generalizing finished with
  | nil => simp [closeWhile]
  | cons s stack ih =>
    rw [closeWhile, closeWhile]
    split
    · rename_i hq
      rw [ih, if_pos (h _ hq)]
    · rw [closeWhile, List.append_nil]

theorem close_close {p q : OpenSection → Bool} (h : ∀ s, q s = true → p s = true) (r : Reading) :
    (r.close q).close p = r.close p := by
  have both := closeWhile_closeWhile h r.roots [] r.stack
  rw [close, close, close, both]

def settle (r : Reading) (indent : Nat) : Reading := r.close fun s => indent ≤ s.indent

def IsSettled (r : Reading) (indent : Nat) : Prop := ∀ s ∈ r.stack.head?, s.indent < indent

theorem settle_settle {indent deeper : Nat} (h : indent ≤ deeper) (r : Reading) :
    (r.settle deeper).settle indent = r.settle indent :=
  close_close (fun s hs => by simp only [decide_eq_true_eq] at hs ⊢; omega) r

theorem head?_closeWhile (p : OpenSection → Bool) (roots finished : List Node)
    (stack : List OpenSection) :
    ∀ s ∈ (closeWhile p roots finished stack).1.head?, p s = false := by
  induction stack generalizing finished with
  | nil => nofun
  | cons s stack ih =>
    rw [closeWhile]
    split
    · exact ih _
    · rename_i hs
      rintro t ⟨⟩
      exact Bool.eq_false_iff.mpr hs

theorem isSettled_settle (r : Reading) (indent : Nat) : (r.settle indent).IsSettled indent := by
  intro s hs
  have staying := head?_closeWhile (fun s => indent ≤ s.indent) r.roots [] r.stack s hs
  simpa using staying

theorem IsSettled.settle_eq {r : Reading} {indent : Nat} (h : r.IsSettled indent) :
    r.settle indent = r := by
  obtain ⟨stack, roots, faults⟩ := r
  cases stack with
  | nil => simp [settle, close, closeWhile]
  | cons s stack =>
    have shallow : ¬indent ≤ s.indent := Nat.not_le.mpr (h s rfl)
    simp [settle, close, closeWhile, shallow]

def attachAll (r : Reading) (ns : List Node) : Reading :=
  match r.stack with
  | [] => { r with roots := r.roots ++ ns }
  | s :: ss => { r with stack := { s with children := s.children ++ ns } :: ss }

theorem attachAll_nil (r : Reading) : r.attachAll [] = r := by
  obtain ⟨stack, roots, faults⟩ := r
  cases stack <;> simp [attachAll]

theorem attachAll_attach (r : Reading) (n : Node) (ns : List Node) :
    (r.attach n).attachAll ns = r.attachAll (n :: ns) := by
  obtain ⟨stack, roots, faults⟩ := r
  cases stack <;> simp [attach, attachAll]

theorem IsSettled.attach {r : Reading} {indent : Nat} (h : r.IsSettled indent) (n : Node) :
    (r.attach n).IsSettled indent := by
  obtain ⟨stack, roots, faults⟩ := r
  cases stack with
  | nil => exact h
  | cons s stack =>
    rintro t ⟨⟩
    exact h s rfl

def push (r : Reading) (s : OpenSection) : Reading := { r with stack := s :: r.stack }

theorem settle_attachAll_push {r : Reading} {indent : Nat} (h : r.IsSettled indent) (key : String)
    (number : Nat) (ns : List Node) :
    ((r.push ⟨indent, key, number, []⟩).attachAll ns).settle indent =
      r.attach (.heading key number ns) := by
  obtain ⟨stack, roots, faults⟩ := r
  cases stack with
  | nil => simp [push, attachAll, attach, settle, close, closeWhile]
  | cons s stack =>
    have shallow : ¬indent ≤ s.indent := Nat.not_le.mpr (h s rfl)
    simp [push, attachAll, attach, settle, close, closeWhile, shallow]

theorem lines_append (r : Reading) (number : Nat) (ls ls' : List (List Char)) :
    r.lines number (ls ++ ls') = (r.lines number ls).lines (number + ls.length) ls' := by
  induction ls generalizing r number with
  | nil => rfl
  | cons l ls ih =>
    rw [List.cons_append, lines, lines, ih, List.length_cons, Nat.add_right_comm, Nat.add_assoc]

theorem line_printedLine {c : Char} {s : List Char} (solid : Text.isBlank c = false) (r : Reading)
    (number depth : Nat) : r.line number (printedLine depth (c :: s)) =
      match Content.of (Text.trimEnd (c :: s)) with
      | .heading key => (r.settle depth).push ⟨depth, key, number, []⟩
      | .entry key value => (r.settle depth).attach (.entry key value number)
      | .invalid text =>
        { r.settle depth with
          faults := (r.settle depth).faults ++ [(number, .invalidLine text)] } := by
  have blanks : ∀ b ∈ List.replicate depth ' ', Text.isBlank b = true := by
    intro b hb
    rw [List.eq_of_mem_replicate hb]
    rfl
  have trim : Text.trim (List.replicate depth ' ' ++ c :: s) = Text.trimEnd (c :: s) := by
    rw [Text.trim, Text.trimStart, List.dropWhile_append_of_pos blanks,
      List.dropWhile_cons_of_neg (by simp [solid])]
  have indent : Text.byteLength
      ((List.replicate depth ' ' ++ c :: s).takeWhile Text.isBlank) = depth := by
    rw [List.takeWhile_append_of_pos blanks, List.takeWhile_cons_of_neg (by simp [solid]),
      List.append_nil]
    clear trim blanks
    induction depth with
    | zero => rfl
    | succ depth ih => rw [List.replicate_succ, Text.byteLength, ih, Nat.add_comm]; rfl
  have content : (Text.trimEnd (c :: s)).isEmpty = false := by
    have kept := Text.trimEnd_append_cons solid [] s
    rw [List.nil_append] at kept
    rw [kept]
    rfl
  rw [line, printedLine, dropComment_escape]
  simp only [trim, indent, content]
  rfl

theorem line_entry {key value : String} (hk : IsKey key) (hv : IsField value) (r : Reading)
    (number depth : Nat) : r.line number (printedLine depth (entryText key value)) =
      (r.settle depth).attach (.entry key value number) := by
  obtain ⟨c, t, start, solid⟩ := hk.exists_cons
  have content := of_entryText hk hv
  have text : entryText key value = c :: (t ++ " = ".toList ++ value.toList) := by
    rw [entryText, start]
    rfl
  rw [text] at content ⊢
  rw [line_printedLine solid, content]

theorem line_heading {key : String} (hk : IsKey key) (r : Reading) (number depth : Nat) :
    r.line number (printedLine depth (headingText key)) =
      (r.settle depth).push ⟨depth, key, number, []⟩ := by
  obtain ⟨c, t, start, solid⟩ := hk.exists_cons
  have content := of_headingText hk
  have text : headingText key = c :: (t ++ ":".toList) := by
    rw [headingText, start]
    rfl
  rw [text] at content ⊢
  rw [line_printedLine solid, content]

/-- Whatever sections are open, a printed node is attached to the one that stays open. -/
def ReadsBack (n : Node) : Prop :=
  ∀ (r : Reading) (number depth : Nat), (r.lines number (n.printed depth)).settle depth =
    (r.settle depth).attach (n.numbered number)

theorem settle_lines_printedAll {ns : List Node} (h : ∀ n ∈ ns, ReadsBack n) (r : Reading)
    (number depth : Nat) : (r.lines number (printedAll depth ns)).settle depth =
      (r.settle depth).attachAll (numberedAll number ns) := by
  induction ns generalizing r number with
  | nil => rw [printedAll, lines, numberedAll, attachAll_nil]
  | cons n ns ih =>
    obtain ⟨hn, rest⟩ := List.forall_mem_cons.mp h
    rw [printedAll, lines_append, ih rest, hn, attachAll_attach, n.length_printed, numberedAll]

theorem readsBack_of_isProper {n : Node} (h : n.IsProper) : ReadsBack n := by
  induction h with
  | @entry key value _ hk hv =>
    intro r number depth
    have settled := (r.isSettled_settle depth).attach (.entry key value number)
    rw [Node.printed, lines, lines, line_entry hk hv, settled.settle_eq, Node.numbered]
  | @heading key _ children hk inside ih =>
    intro r number depth
    have opened : ((r.settle depth).push ⟨depth, key, number, []⟩).IsSettled (depth + 1) := by
      rintro s ⟨⟩
      exact Nat.lt_succ_self depth
    -- what the children leave open is closed first, and then their own section
    rw [Node.printed, lines, line_heading hk, ← settle_settle (Nat.le_succ depth),
      settle_lines_printedAll ih, opened.settle_eq,
      settle_attachAll_push (r.isSettled_settle depth), Node.numbered]

theorem lines_concat_nil (r : Reading) (number : Nat) (ls : List (List Char)) :
    r.lines number (ls ++ [[]]) = r.lines number ls := by
  rw [lines_append]
  rfl

end Reading

theorem read_of_splitOn {ns : List Node} (h : ∀ n ∈ ns, n.IsProper) {text : String}
    (split : Text.splitOn '\n' text.toList = printedAll 0 ns ∨
      Text.splitOn '\n' text.toList = printedAll 0 ns ++ [[]]) :
    read text = (numberedAll 1 ns, []) := by
  have lines : Reading.start.lines 1 (Text.splitOn '\n' text.toList) =
      Reading.start.lines 1 (printedAll 0 ns) := by
    rcases split with split | split
    · rw [split]
    · rw [split, Reading.lines_concat_nil]
  have all : (fun _ => true) = fun s : OpenSection => decide (0 ≤ s.indent) := by
    funext s
    simp
  have settled := Reading.settle_lines_printedAll
    (fun n hn => Reading.readsBack_of_isProper (h n hn)) .start 1 0
  rw [Reading.settle, ← all] at settled
  rw [read, lines, settled]
  rfl

/-- A printed outline reads back without faults, whether its last line is ended or not. -/
theorem read_printedAll {ns : List Node} (h : ∀ n ∈ ns, n.IsProper) :
    read (String.ofList (Text.join ['\n'] (printedAll 0 ns))) = (numberedAll 1 ns, []) ∧
      read (String.ofList ((printedAll 0 ns).flatMap (· ++ ['\n']))) = (numberedAll 1 ns, []) := by
  have clean : ∀ l ∈ printedAll 0 ns, '\n' ∉ l := by
    intro l hl
    rw [printedAll_eq_flatMap, List.mem_flatMap] at hl
    obtain ⟨n, hn, hl⟩ := hl
    exact (h n hn).notMem 0 hl
  refine ⟨?_, read_of_splitOn h (.inr ?_)⟩
  · by_cases none : printedAll 0 ns = []
    · refine read_of_splitOn h (.inr ?_)
      rw [String.toList_ofList, none]
      rfl
    · refine read_of_splitOn h (.inl ?_)
      rw [String.toList_ofList, Text.splitOn_join clean none]
  · rw [String.toList_ofList, Text.splitOn_flatMap clean]

theorem read_printedAll_of_nested_sections :
    let ns : List Node := [.heading "a # b" 0 [.entry "k" "x = #1: y" 0,
      .heading "c:" 0 [.heading "d" 0 []]], .entry "e" "" 0]
    (∀ n ∈ ns, n.IsProper) ∧
      printedAll 0 ns = ["a ## b:".toList, " k = x = ##1: y".toList, " c::".toList,
        "  d:".toList, "e = ".toList] ∧
      numberedAll 1 ns = [.heading "a # b" 1 [.entry "k" "x = #1: y" 2,
        .heading "c:" 3 [.heading "d" 4 []]], .entry "e" "" 5] ∧
      read (String.ofList (Text.join ['\n'] (printedAll 0 ns))) = (numberedAll 1 ns, []) ∧
      read (String.ofList ((printedAll 0 ns).flatMap (· ++ ['\n']))) = (numberedAll 1 ns, []) := by
  intro ns
  have inner : ∀ n ∈ [Node.entry "k" "x = #1: y" 0, .heading "c:" 0 [.heading "d" 0 []]],
      n.IsProper := by
    simp only [List.mem_cons, List.not_mem_nil, or_false, forall_eq_or_imp, forall_eq]
    exact ⟨.entry 0 (by decide) (by decide),
      .heading 0 (by decide) (List.forall_mem_singleton.mpr (.heading 0 (by decide) nofun))⟩
  have proper : ∀ n ∈ ns, n.IsProper := by
    simp only [ns, List.mem_cons, List.not_mem_nil, or_false, forall_eq_or_imp, forall_eq]
    exact ⟨.heading 0 (by decide) inner, .entry 0 (by decide) (by decide)⟩
  exact ⟨proper, by decide, rfl, read_printedAll proper⟩

end Outline

end ItemLexicon
