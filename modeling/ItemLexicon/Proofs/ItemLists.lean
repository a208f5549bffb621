import ItemLexicon.Proofs.NestedBlocks
import ItemLexicon.Proofs.Words

namespace ItemLexicon

namespace Text

theorem trim_append_of_blank {pad : List Char} (h : ∀ c ∈ pad, isBlank c = true) (s : List Char) :
    trim (pad ++ s) = trim s := by
  induction pad with
  | nil => rfl
  | cons c pad ih =>
    obtain ⟨hc, rest⟩ := List.forall_mem_cons.mp h
    rw [List.cons_append, trim_cons_blank hc, ih rest]

end Text

namespace Segment

variable {sep : Char}

theorem split_append_of_height (sep : Char) {n m : Nat} {w : List Char} (h : height n w = some m)
    (s : List Char) : split sep (n + 1) (w ++ s) = (split sep (m + 1) s).modifyHead (w ++ ·) := by
  induction w generalizing n with
  | nil =>
    cases h
    exact (List.modifyHead_id ▸ rfl)
  | cons c w ih =>
    rw [height] at h
    split at h
    · cases h
    · rename_i deep
      rw [List.cons_append, split_cons (by simp), depthAfter_add deep, ih h,
        List.modifyHead_modifyHead]
      rfl

namespace IsPart

variable {p : List Char}

theorem group {o c : Char} (pair : Encloses o c) (h : IsPaired p) :
    IsPart sep (o :: (p ++ [c])) := by
  intro s
  have opens : isBracket o = true ∧ depthAfter 0 o = 1 := by cases pair <;> exact ⟨rfl, rfl⟩
  have closes : isBracket c = true ∧ depthAfter 1 c = 0 := by cases pair <;> exact ⟨rfl, rfl⟩
  have inside := split_append_of_height sep h (c :: s)
  rw [List.cons_append, List.append_assoc, split_cons (by simp [opens.1]), opens.2,
    List.singleton_append, inside, split_cons (by simp), closes.2, List.modifyHead_modifyHead,
    List.modifyHead_modifyHead]
  congr 1
  funext t
  simp

end IsPart

theorem segments_append_of_blank {pad : List Char} (blank : ∀ c ∈ pad, Text.isBlank c = true)
    (part : IsPart sep pad) (s : List Char) : segments sep (pad ++ s) = segments sep s := by
  rw [segments, segments, part]
  cases split sep 0 s with
  | nil => rfl
  | cons p ps =>
    rw [List.modifyHead_cons, List.map_cons, List.map_cons, Text.trim_append_of_blank blank]

theorem segments_join {pad : List Char} (blank : ∀ c ∈ pad, Text.isBlank c = true)
    (solid : Text.isBlank sep = false) (plain : isBracket sep = false) {ps : List (List Char)}
    (ne : ps ≠ []) (parts : ∀ p ∈ ps, IsPart sep p) (trim : ∀ p ∈ ps, Text.IsTrim p) :
    segments sep (Text.join (sep :: pad) ps) = ps := by
  have padding : IsPart sep pad := by
    refine .of_plain fun c hc => ⟨?_, isBracket_of_isBlank (blank c hc)⟩
    rintro rfl
    rw [blank c hc] at solid
    cases solid
  induction ps with
  | nil => exact absurd rfl ne
  | cons p ps ih =>
    have whole := (trim p List.mem_cons_self).trim_eq
    have part := parts p List.mem_cons_self
    cases ps with
    | nil => simp [Text.join, segments, part.split_eq, whole]
    | cons q ps =>
      have rest := ih (List.cons_ne_nil q ps) (fun r hr => parts r (List.mem_cons_of_mem p hr))
        fun r hr => trim r (List.mem_cons_of_mem p hr)
      rw [← segments_append_of_blank blank padding] at rest
      have separated (s : List Char) : split sep 0 (sep :: s) = [] :: split sep 0 s := by
        rw [split, if_pos (by simp [plain])]
      rw [Text.join, List.append_assoc, List.cons_append, segments, part, separated,
        List.modifyHead_cons, List.map_cons, List.append_nil, whole]
      exact congrArg (p :: ·) rest

end Segment

instance (s : List Char) : Decidable (∃ v, Variation.read s = .ok v) :=
  match Variation.read s with
  | .ok v => .isTrue ⟨v, rfl⟩
  | .error _ => .isFalse fun ⟨_, same⟩ => nomatch same

/-- The text of an item definition: an id, and behind it the states in brackets and a tag block,
each of which may be absent.  The states end before the first brace, where the block starts. -/
structure ItemText where
  id : List Char
  states : Option (List Char)
  gap : List Char
  block : Option (List Char)
  plain : ∀ c ∈ id, c ≠ ',' ∧ Segment.isBracket c = false
  braceless : ∀ s ∈ states, '\x7b' ∉ s
  blank : ∀ c ∈ gap, Text.isBlank c = true

namespace ItemText

variable {i : ItemText}

def front (i : ItemText) : List Char :=
  i.id ++ ((i.states.map fun s => '[' :: (s ++ [']'])).getD [] ++ i.gap)

def text (i : ItemText) : List Char := i.front ++ (i.block.map fun b => '\x7b' :: b).getD []

/-- The brackets in the states pair up, and so do those in each quoted text of the block. -/
structure IsPaired (i : ItemText) : Prop where
  states : ∀ s ∈ i.states, Segment.IsPaired s
  texts : ∀ b ∈ i.block, ∀ t ∈ Tag.quotedTexts b, Segment.IsPaired t

theorem brace_notMem_front (i : ItemText) : '\x7b' ∉ i.front := by
  intro h
  rcases List.mem_append.mp h with h | h
  · cases (i.plain _ h).2
  · rcases List.mem_append.mp h with h | h
    · have braceless := i.braceless
      cases states : i.states with
      | none =>
        rw [states] at h
        cases h
      | some s =>
        rw [states] at h braceless
        have inside : '\x7b' ∈ s := by simpa using h
        exact braceless s rfl inside
    · cases i.blank _ h

theorem IsPaired.isPart_front (h : i.IsPaired) : Segment.IsPart ',' i.front := by
  have gap : Segment.IsPart ',' i.gap := by
    refine .of_plain fun c hc => ⟨?_, Segment.isBracket_of_isBlank (i.blank c hc)⟩
    rintro rfl
    cases i.blank _ hc
  refine (Segment.IsPart.of_plain i.plain).append (.append ?_ gap)
  have paired := h.states
  cases states : i.states with
  | none => exact .of_plain (List.forall_mem_nil _)
  | some s =>
    rw [states] at paired
    exact .group .brackets (paired s rfl)

theorem exists_read_of_block {b : List Char} (hb : i.block = some b) (trim : Text.IsTrim i.text)
    {v : Variation} (read : Variation.read i.text = .ok v) :
    ∃ tags, Tags.read (String.ofList ('\x7b' :: b)) = .ok tags := by
  obtain ⟨rest, tags, name, states, cut, -, -⟩ := Variation.read_eq_ok_iff.mp read
  have whole : i.text = i.front ++ '\x7b' :: b := by
    rw [text, hb]
    rfl
  rw [trim.trim_eq, whole, Variation.cutTags,
    Text.cut_append_cons i.brace_notMem_front] at cut
  split at cut
  · rename_i none
    cases none
  · cases cut
  · rename_i same
    cases same
    dsimp only at cut
    split at cut
    · rename_i tags' known
      exact ⟨tags', known⟩
    · cases cut

theorem IsPaired.isPart (h : i.IsPaired) (trim : Text.IsTrim i.text) {v : Variation}
    (read : Variation.read i.text = .ok v) : Segment.IsPart ',' i.text := by
  refine h.isPart_front.append ?_
  have texts := h.texts
  cases block : i.block with
  | none => exact .of_plain (List.forall_mem_nil _)
  | some b =>
    rw [block] at texts
    obtain ⟨tags, known⟩ := exists_read_of_block block trim read
    obtain ⟨w, pad, rfl, paired, padding⟩ := Tag.exists_paired_of_read known (texts b rfl)
    have after : Segment.IsPart ',' pad := by
      refine .of_plain fun c hc => ⟨?_, Segment.isBracket_of_isBlank (padding c hc)⟩
      rintro rfl
      cases padding _ hc
    have inside : Segment.IsPart ',' ('\x7b' :: (w ++ ['\x7d'])) := .group .braces paired
    have whole := inside.append after
    rwa [List.cons_append, List.append_assoc] at whole

/-- A list of definitions that can be read is split into just these. -/
theorem segments_join_text {is : List ItemText} (ne : is ≠ [])
    (trim : ∀ i ∈ is, Text.IsTrim i.text) (read : ∀ i ∈ is, ∃ v, Variation.read i.text = .ok v)
    (paired : ∀ i ∈ is, i.IsPaired) :
    Segment.segments ',' (Text.join [',', ' '] (is.map text)) = is.map text := by
  refine Segment.segments_join (List.forall_mem_singleton.mpr rfl) rfl rfl (by simpa using ne)
    (List.forall_mem_map.mpr fun i hi => ?_) (List.forall_mem_map.mpr trim)
  obtain ⟨v, known⟩ := read i hi
  exact (paired i hi).isPart (trim i hi) known

theorem segments_join_text_of_sword :
    let sword : ItemText := ⟨"sword".toList, some "a=b".toList, [' '],
      some "k: \"x,\x7by\x7d\"\x7d".toList, Text.forall_of_all (by decide), by decide,
      Text.forall_of_all (by decide)⟩
    let apple : ItemText := ⟨"apple".toList, none, [], none, Text.forall_of_all (by decide),
      by decide, List.forall_mem_nil _⟩
    sword.text = "sword[a=b] \x7bk: \"x,\x7by\x7d\"\x7d".toList ∧
      apple.text = "apple".toList ∧ (∀ i ∈ [sword, apple], Text.IsTrim i.text) ∧
      (∀ i ∈ [sword, apple], ∃ v, Variation.read i.text = .ok v) ∧
      (∀ i ∈ [sword, apple], i.IsPaired) ∧
      Segment.segments ',' (Text.join [',', ' '] [sword.text, apple.text]) =
        [sword.text, apple.text] := by
  intro sword apple
  have trim : ∀ i ∈ [sword, apple], Text.IsTrim i.text :=
    List.forall_mem_cons.mpr ⟨by decide, List.forall_mem_singleton.mpr (by decide)⟩
  have read : ∀ i ∈ [sword, apple], ∃ v, Variation.read i.text = .ok v :=
    List.forall_mem_cons.mpr
      ⟨by decide +kernel, List.forall_mem_singleton.mpr (by decide +kernel)⟩
  have paired : ∀ i ∈ [sword, apple], i.IsPaired := by
    refine List.forall_mem_cons.mpr ⟨⟨?_, ?_⟩, List.forall_mem_singleton.mpr ⟨?_, ?_⟩⟩
    · rintro s ⟨⟩
      decide
    · rintro b ⟨⟩
      decide
    · rintro s ⟨⟩
    · rintro b ⟨⟩
  exact ⟨rfl, rfl, trim, read, paired,
    segments_join_text (List.cons_ne_nil sword [apple]) trim read paired⟩

theorem segments_join_text_ne :
    let sword : ItemText := ⟨['a'], none, [' '], some "k: \"\x7d,\"\x7d".toList,
      Text.forall_of_all (by decide), by decide, Text.forall_of_all (by decide)⟩
    Segment.segments ',' (Text.join [',', ' '] []) = [[]] ∧
      Text.IsTrim sword.text ∧ (∃ v, Variation.read sword.text = .ok v) ∧
      Segment.segments ',' (Text.join [',', ' '] [sword.text, ['b']]) =
        ["a \x7bk: \"\x7d".toList, "\"\x7d".toList, ['b']] := by
  intro sword
  refine ⟨rfl, by decide, by decide +kernel, ?_⟩
  subst sword
  rfl

end ItemText

end ItemLexicon
