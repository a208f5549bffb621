import ItemLexicon.Proofs.NestedBlocks
import ItemLexicon.Proofs.Words

namespace ItemLexicon

namespace Text

theorem exists_trimEnd_append (s : List Char) :
    ∃ pad, s = trimEnd s ++ pad ∧ ∀ c ∈ pad, isBlank c = true := by
  induction s with
  | nil => exact ⟨[], rfl, List.forall_mem_nil _⟩
  | cons c s ih =>
    obtain ⟨pad, whole, blank⟩ := ih
    rw [trimEnd]
    split
    · rename_i nothing
      rw [nothing, List.nil_append] at whole
      subst whole
      split
      · rename_i hc
        exact ⟨c :: s, rfl, List.forall_mem_cons.mpr ⟨hc, blank⟩⟩
      · exact ⟨s, rfl, blank⟩
    · rename_i rest
      rw [rest] at whole
      exact ⟨pad, congrArg (c :: ·) whole, blank⟩

theorem exists_append_trim_append (s : List Char) : ∃ front back, s = front ++ (trim s ++ back) ∧
    (∀ c ∈ front, isBlank c = true) ∧ ∀ c ∈ back, isBlank c = true := by
  obtain ⟨back, whole, blank⟩ := exists_trimEnd_append (trimStart s)
  refine ⟨s.takeWhile isBlank, back, ?_, fun c => List.mem_takeWhile_imp, blank⟩
  rw [trim, ← whole, trimStart, List.takeWhile_append_dropWhile]

end Text

namespace Segment

def depthFrom (depth : Nat) (s : List Char) : Nat := s.foldl depthAfter depth

def separators (sep : Char) (depth : Nat) (s : List Char) : Nat :=
  (List.range s.length).countP fun i => s[i]? == some sep && depthFrom depth (s.take i) == 0

/-- Pieces between separators: none of them has one outside its groups, and all groups are closed
where a piece ends that is not the last. -/
def ArePieces (sep : Char) (depth : Nat) : List (List Char) → Prop
  | [] => False
  | [p] => split sep depth p = [p]
  | p :: q :: ps =>
    split sep depth p = [p] ∧ depthFrom depth p = 0 ∧ ArePieces sep 0 (q :: ps)

variable {sep : Char} {n : Nat} {p s : List Char} {ps : List (List Char)}

theorem depthFrom_append (n : Nat) (s t : List Char) :
    depthFrom n (s ++ t) = depthFrom (depthFrom n s) t := List.foldl_append

theorem depthFrom_of_plain (h : ∀ c ∈ p, isBracket c = false) (n : Nat) : depthFrom n p = n := by
  induction p with
  | nil => rfl
  | cons c p ih =>
    obtain ⟨hc, rest⟩ := List.forall_mem_cons.mp h
    rw [depthFrom, List.foldl_cons, depthAfter_of_not_isBracket hc]
    exact ih rest

theorem split_sep (plain : isBracket sep = false) (s : List Char) :
    split sep 0 (sep :: s) = [] :: split sep 0 s := by
  rw [split, if_pos (by simp [plain])]

theorem length_split (plain : isBracket sep = false) (n : Nat) (s : List Char) :
    (split sep n s).length = separators sep n s + 1 := by
  induction s generalizing n with
  | nil => rfl
  | cons c s ih =>
    have later : separators sep n (c :: s) =
        (if c == sep && n == 0 then 1 else 0) + separators sep (depthAfter n c) s := by
      rw [separators, List.length_cons, List.range_succ_eq_map, List.countP_cons, List.countP_map,
        Nat.add_comm]
      rfl
    rw [later]
    cases cut : c == sep && n == 0 with
    | true =>
      obtain ⟨rfl, rfl⟩ : c = sep ∧ n = 0 := by simpa using cut
      rw [split_sep plain, List.length_cons, ih, depthAfter_of_not_isBracket plain, if_pos rfl]
      omega
    | false =>
      rw [split_cons (by rw [cut, Bool.false_and]), List.length_modifyHead, ih,
        if_neg Bool.false_ne_true, Nat.zero_add]

theorem split_cons_eq_singleton_iff {c : Char} : split sep n (c :: s) = [c :: s] ↔
    (c == sep && n == 0 && !isBracket c) = false ∧ split sep (depthAfter n c) s = [s] := by
  cases cut : c == sep && n == 0 && !isBracket c with
  | true => simp [split, cut]
  | false =>
    rw [split_cons cut]
    cases parts : split sep (depthAfter n c) s with
    | nil => exact absurd parts (split_ne_nil _ _ _)
    | cons q qs => simp

theorem split_append_eq_singleton_iff {q : List Char} : split sep n (p ++ q) = [p ++ q] ↔
    split sep n p = [p] ∧ split sep (depthFrom n p) q = [q] := by
  induction p generalizing n with
  | nil => exact (and_iff_right rfl).symm
  | cons c p ih =>
    rw [List.cons_append, split_cons_eq_singleton_iff, split_cons_eq_singleton_iff, ih, and_assoc]
    rfl

theorem split_append_of_singleton (h : split sep n p = [p]) (s : List Char) :
    split sep n (p ++ s) = (split sep (depthFrom n p) s).modifyHead (p ++ ·) := by
  induction p generalizing n with
  | nil => exact (List.modifyHead_id ▸ rfl)
  | cons c p ih =>
    obtain ⟨cut, rest⟩ := split_cons_eq_singleton_iff.mp h
    rw [List.cons_append, split_cons cut, ih rest, List.modifyHead_modifyHead]
    rfl

theorem split_trim (h : split sep 0 p = [p]) :
    split sep 0 (Text.trim p) = [Text.trim p] ∧ depthFrom 0 (Text.trim p) = depthFrom 0 p := by
  obtain ⟨front, back, whole, blankFront, blankBack⟩ := Text.exists_append_trim_append p
  have before : depthFrom 0 front = 0 :=
    depthFrom_of_plain (fun c hc => isBracket_of_isBlank (blankFront c hc)) 0
  have behind (n : Nat) : depthFrom n back = n :=
    depthFrom_of_plain (fun c hc => isBracket_of_isBlank (blankBack c hc)) n
  have same : depthFrom 0 p = depthFrom 0 (Text.trim p) := by
    rw [congrArg (depthFrom 0) whole, depthFrom_append, depthFrom_append, before, behind]
  rw [whole, split_append_eq_singleton_iff, split_append_eq_singleton_iff, before] at h
  exact ⟨h.2.1, same.symm⟩

namespace ArePieces

theorem of_split (sep : Char) (n : Nat) (s : List Char) : ArePieces sep n (split sep n s) := by
  induction s generalizing n with
  | nil => rfl
  | cons c s ih =>
    cases cut : c == sep && n == 0 && !isBracket c with
    | true =>
      have zero : n = 0 := by simp_all
      have rest := ih 0
      rw [split, if_pos cut]
      cases parts : split sep 0 s with
      | nil => exact absurd parts (split_ne_nil _ _ _)
      | cons q qs => exact ⟨rfl, zero, parts ▸ rest⟩
    | false =>
      have rest := ih (depthAfter n c)
      rw [split_cons cut]
      cases parts : split sep (depthAfter n c) s with
      | nil => exact absurd parts (split_ne_nil _ _ _)
      | cons q qs =>
        rw [parts] at rest
        cases qs with
        | nil => exact split_cons_eq_singleton_iff.mpr ⟨cut, rest⟩
        | cons r rs => exact ⟨split_cons_eq_singleton_iff.mpr ⟨cut, rest.1⟩, rest.2⟩

theorem split_of_mem (h : ArePieces sep 0 ps) (hp : p ∈ ps) : split sep 0 p = [p] := by
  induction ps with
  | nil => cases hp
  | cons q ps ih =>
    cases ps with
    | nil => exact List.mem_singleton.mp hp ▸ h
    | cons r rs =>
      rcases List.mem_cons.mp hp with rfl | hp
      · exact h.1
      · exact ih h.2.2 hp

theorem map_trim (h : ArePieces sep 0 ps) : ArePieces sep 0 (ps.map Text.trim) := by
  induction ps with
  | nil => exact h
  | cons p ps ih =>
    cases ps with
    | nil => exact (split_trim h).1
    | cons q ps =>
      obtain ⟨piece, closed, rest⟩ := h
      exact ⟨(split_trim piece).1, (split_trim piece).2.trans closed, ih rest⟩

theorem split_join (plain : isBracket sep = false) (h : ArePieces sep 0 ps) :
    split sep 0 (Text.join [sep] ps) = ps := by
  induction ps with
  | nil => cases h
  | cons p ps ih =>
    cases ps with
    | nil => exact h
    | cons q ps =>
      obtain ⟨piece, closed, rest⟩ := h
      rw [Text.join, List.append_assoc, List.singleton_append, split_append_of_singleton piece,
        closed, split_sep plain, ih rest, List.modifyHead_cons, List.append_nil]

end ArePieces

/-- There is one segment more than separators outside all groups, each segment is a list of one, and
the segments are those of the text that they are joined to. -/
theorem segments_rejoined (plain : isBracket sep = false) (s : List Char) :
    (segments sep s).length = separators sep 0 s + 1 ∧
      (∀ p ∈ segments sep s, segments sep p = [p]) ∧
      segments sep (Text.join [sep] (segments sep s)) = segments sep s := by
  have pieces : ArePieces sep 0 (segments sep s) := (ArePieces.of_split sep 0 s).map_trim
  have trimmed : ∀ p ∈ segments sep s, Text.trim p = p :=
    List.forall_mem_map.mpr fun p _ => (Text.isTrim_trim p).trim_eq
  refine ⟨by rw [segments, List.length_map, length_split plain], fun p hp => ?_, ?_⟩
  · rw [segments, pieces.split_of_mem hp, List.map_singleton, trimmed p hp]
  · rw [segments, pieces.split_join plain]
    exact (List.map_congr_left trimmed).trans (List.map_id' _)

theorem segments_rejoined_of_space :
    let s := "a]  \x7bb c\x7d [d e".toList
    isBracket ' ' = false ∧ separators ' ' 0 s = 3 ∧ (segments ' ' s).length = 3 + 1 ∧
      segments ' ' s = ["a]".toList, [], "\x7bb c\x7d".toList, "[d e".toList] ∧
      segments ' ' "\x7bb c\x7d".toList = ["\x7bb c\x7d".toList] ∧
      segments ' ' (Text.join [' '] (segments ' ' s)) = segments ' ' s := by
  intro s
  have plain : isBracket ' ' = false := rfl
  obtain ⟨count, alone, again⟩ := segments_rejoined plain s
  have parts : segments ' ' s = ["a]".toList, [], "\x7bb c\x7d".toList, "[d e".toList] := by decide
  have three : separators ' ' 0 s = 3 := by decide
  rw [three] at count
  exact ⟨plain, three, count, parts, alone _ (by rw [parts]; simp), again⟩

end Segment

end ItemLexicon
