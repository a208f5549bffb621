import ItemLexicon.Tag.Relaxed

/-! Tag blocks as text, laid out with any white space between the tokens.  How keys and values
without parts are spelled is left open. -/

namespace ItemLexicon.Tag

def IsPadding (s : List Char) : Prop := ∀ c ∈ s, Text.isBlank c = true

/-- How keys and values without parts may be written. -/
structure Spelling where
  key : List Char → List Char → Prop
  leaf : Tag → List Char → Prop

structure Slot where
  before : List Char
  tag : Tag
  text : List Char
  after : List Char

structure Member where
  before : List Char
  key : List Char
  text : List Char
  after : List Char
  value : Slot

namespace Slot

def written (s : Slot) : List Char := s.before ++ s.text ++ s.after

def onward (s : Slot) (tail : List Char) : List Char := s.text ++ (s.after ++ tail)

theorem written_append (s : Slot) (tail : List Char) :
    s.written ++ tail = s.before ++ s.onward tail := by
  simp only [written, onward, List.append_assoc]

theorem length_text_le (s : Slot) : s.text.length ≤ s.written.length := by
  simp only [written, List.length_append]
  omega

structure IsPadded (s : Slot) : Prop where
  before : IsPadding s.before
  after : IsPadding s.after

end Slot

namespace Member

def written (m : Member) : List Char := m.before ++ m.text ++ m.after ++ ':' :: m.value.written

def onward (m : Member) (tail : List Char) : List Char :=
  m.text ++ (m.after ++ ':' :: (m.value.before ++ m.value.onward tail))

theorem written_append (m : Member) (tail : List Char) :
    m.written ++ tail = m.before ++ m.onward tail := by
  simp only [written, onward, Slot.written, Slot.onward, List.append_assoc, List.cons_append]

theorem length_value_lt (m : Member) : m.value.text.length < m.written.length := by
  simp only [written, Slot.written, List.length_append, List.length_cons]
  omega

def entry (m : Member) : String × Tag := (String.ofList m.key, m.value.tag)

structure IsPadded (m : Member) : Prop where
  before : IsPadding m.before
  after : IsPadding m.after
  value : m.value.IsPadded

end Member

def listText (pad : List Char) (slots : List Slot) : List Char :=
  '[' :: pad ++ Text.join [','] (slots.map Slot.written) ++ [']']

def IsTypeMark (m : Char) : Prop := m = 'B' ∨ m = 'I' ∨ m = 'L'

def markedText (pad : List Char) (m : Char) (slots : List Slot) : List Char :=
  '[' :: pad ++ m :: ';' :: Text.join [','] (slots.map Slot.written) ++ [']']

def compoundText (pad : List Char) (members : List Member) : List Char :=
  '\x7b' :: pad ++ Text.join [','] (members.map Member.written) ++ ['\x7d']

/-- A text that a tag may be written as.  The later of two members with one key counts. -/
inductive Writes (S : Spelling) : Tag → List Char → Prop
  | leaf {t : Tag} {w : List Char} (h : S.leaf t w) : Writes S t w
  | list {pad : List Char} {slots : List Slot} (padding : IsPadding pad)
      (padded : ∀ s ∈ slots, s.IsPadded) (inside : ∀ s ∈ slots, Writes S s.tag s.text) :
      Writes S (.list (slots.map Slot.tag)) (listText pad slots)
  | marked {pad : List Char} {m : Char} {slots : List Slot} (padding : IsPadding pad)
      (hm : IsTypeMark m) (filled : slots ≠ []) (padded : ∀ s ∈ slots, s.IsPadded)
      (inside : ∀ s ∈ slots, Writes S s.tag s.text) :
      Writes S (.list (slots.map Slot.tag)) (markedText pad m slots)
  | compound {pad : List Char} {members : List Member} (padding : IsPadding pad)
      (padded : ∀ m ∈ members, m.IsPadded) (keys : ∀ m ∈ members, S.key m.key m.text)
      (inside : ∀ m ∈ members, Writes S m.value.tag m.value.text) :
      Writes S (.compound (Dictionary.ofList (members.map Member.entry))) (compoundText pad members)

theorem Writes.mono {S S' : Spelling} (keys : ∀ k w, S.key k w → S'.key k w)
    (leaves : ∀ t w, S.leaf t w → S'.leaf t w) {t : Tag} {w : List Char} (h : Writes S t w) :
    Writes S' t w := by
  induction h with
  | leaf h => exact .leaf (leaves _ _ h)
  | list padding padded _ ih => exact .list padding padded ih
  | marked padding hm filled padded _ ih => exact .marked padding hm filled padded ih
  | compound padding padded hk _ ih =>
    exact .compound padding padded (fun m hm => keys _ _ (hk m hm)) ih

inductive Quotes (q : Char) : List Char → List Char → Prop
  | nil : Quotes q [] []
  | char {c : Char} {s w : List Char} (hq : c ≠ q) (hb : c ≠ '\\') (h : Quotes q s w) :
      Quotes q (c :: s) (c :: w)
  | escaped (c : Char) {s w : List Char} (h : Quotes q s w) :
      Quotes q (unescape c :: s) ('\\' :: c :: w)

inductive RelaxedKey : List Char → List Char → Prop
  | bare {w : List Char} (ne : w ≠ []) (h : ∀ c ∈ w, Cursor.isBareKey c = true) : RelaxedKey w w
  | quoted {q : Char} {s w : List Char} (hq : isQuote q = true) (ne : s ≠ []) (h : Quotes q s w) :
      RelaxedKey s (q :: w ++ [q])

inductive RelaxedLeaf : Tag → List Char → Prop
  | bare {w : List Char} (ne : w ≠ []) (h : ∀ c ∈ w, Cursor.isBareValue c = true) :
      RelaxedLeaf (ofBare w) w
  | quoted {q : Char} {s w : List Char} (hq : isQuote q = true) (h : Quotes q s w) :
      RelaxedLeaf (.text (String.ofList s)) (q :: w ++ [q])

theorem RelaxedLeaf.of_ofBare {t : Tag} {w : List Char} (same : ofBare w = t) (ne : w ≠ [])
    (h : ∀ c ∈ w, Cursor.isBareValue c = true) : RelaxedLeaf t w := by
  subst same
  exact .bare ne h

def Spelling.relaxed : Spelling := ⟨RelaxedKey, RelaxedLeaf⟩

def blankCodes : List Nat :=
  [9, 10, 11, 12, 13, 0x20, 0x85, 0xA0, 0x1680, 0x2000, 0x2001, 0x2002, 0x2003, 0x2004, 0x2005,
    0x2006, 0x2007, 0x2008, 0x2009, 0x200A, 0x2028, 0x2029, 0x202F, 0x205F, 0x3000]

theorem toNat_mem_blankCodes {c : Char} (h : Text.isBlank c = true) : c.toNat ∈ blankCodes := by
  simp only [Text.isBlank, Bool.or_eq_true, Bool.and_eq_true, decide_eq_true_eq,
    beq_iff_eq] at h
  simp only [blankCodes, List.mem_cons, List.not_mem_nil, or_false]
  omega

theorem isBareValue_of_isBlank {c : Char} (h : Text.isBlank c = true) :
    Cursor.isBareValue c = false := by
  have each : ∀ n ∈ blankCodes, Cursor.isBareValue (Char.ofNat n) = false := by decide +kernel
  have found := each c.toNat (toNat_mem_blankCodes h)
  rwa [Char.ofNat_toNat] at found

theorem isBareValue_of_isBareKey {c : Char} (h : Cursor.isBareKey c = true) :
    Cursor.isBareValue c = true := by
  rw [Cursor.isBareValue, h, Bool.true_or]

theorem isBareKey_eq_false {c : Char} (h : Cursor.isBareValue c = false) :
    Cursor.isBareKey c = false := by
  rw [Cursor.isBareValue, Bool.or_eq_false_iff] at h
  exact h.1

def Stops (p : Char → Bool) (s : List Char) : Prop := ∀ c ∈ s.head?, p c = false

theorem stops_nil (p : Char → Bool) : Stops p [] := by
  rintro c ⟨⟩

theorem stops_cons {p : Char → Bool} {c : Char} (h : p c = false) (s : List Char) :
    Stops p (c :: s) := by
  rintro d ⟨⟩
  exact h

theorem Stops.mono {p q : Char → Bool} {s : List Char} (h : Stops p s)
    (hp : ∀ {c}, q c = true → p c = true) : Stops q s := by
  intro c hc
  have none := h c hc
  rw [← Bool.not_eq_true] at none ⊢
  exact fun found => none (hp found)

theorem IsPadding.append {s t : List Char} (h : IsPadding s) (h' : IsPadding t) :
    IsPadding (s ++ t) := List.forall_mem_append.mpr ⟨h, h'⟩

theorem IsPadding.stops_append {p : Char → Bool} {pad s : List Char} (h : IsPadding pad)
    (hp : ∀ c, Text.isBlank c = true → p c = false) (hs : Stops p s) : Stops p (pad ++ s) := by
  cases pad with
  | nil => exact hs
  | cons c pad => exact stops_cons (hp c (h c List.mem_cons_self)) _

theorem IsPadding.stops {p : Char → Bool} {pad : List Char} (h : IsPadding pad)
    (hp : ∀ c, Text.isBlank c = true → p c = false) : Stops p pad :=
  fun c hc => hp c (h c (List.mem_of_mem_head? hc))

theorem isBlank_of_isBareValue {c : Char} (h : Cursor.isBareValue c = true) :
    Text.isBlank c = false := by
  rw [← Bool.not_eq_true]
  intro blank
  rw [isBareValue_of_isBlank blank] at h
  cases h

theorem takeWhile_append_of_stops {p : Char → Bool} {w s : List Char} (h : ∀ c ∈ w, p c = true)
    (hs : Stops p s) : (w ++ s).takeWhile p = w := by
  rw [List.takeWhile_append_of_pos h]
  cases s with
  | nil => exact List.append_nil w
  | cons c s => rw [List.takeWhile_cons_of_neg (by simp [hs c rfl]), List.append_nil]

theorem dropWhile_append_of_stops {p : Char → Bool} {w s : List Char} (h : ∀ c ∈ w, p c = true)
    (hs : Stops p s) : (w ++ s).dropWhile p = s := by
  rw [List.dropWhile_append_of_pos h]
  cases s with
  | nil => rfl
  | cons c s => rw [List.dropWhile_cons_of_neg (by simp [hs c rfl])]

theorem isQuote_cases {q : Char} (h : isQuote q = true) : q = '"' ∨ q = '\x27' := by
  rwa [isQuote, Bool.or_eq_true, beq_iff_eq, beq_iff_eq] at h

theorem isBlank_of_isQuote {q : Char} (h : isQuote q = true) : Text.isBlank q = false := by
  rcases isQuote_cases h with rfl | rfl <;> rfl

theorem isQuote_of_isBareValue {c : Char} (h : Cursor.isBareValue c = true) :
    isQuote c = false := by
  rw [← Bool.not_eq_true]
  intro quote
  rcases isQuote_cases quote with rfl | rfl <;> cases h

def Yields {α : Type} (x : Except TagFault (α × Cursor)) (a : α) (rest : List Char) : Prop :=
  ∃ n, x = .ok (a, ⟨rest, n⟩)

theorem Yields.map {α β : Type} {x : Except TagFault (α × Cursor)} {a : α} {rest : List Char}
    (h : Yields x a rest) (f : α → β) : Yields (x.map fun r => (f r.1, r.2)) (f a) rest := by
  obtain ⟨n, rfl⟩ := h
  exact ⟨n, rfl⟩

theorem skipBlank_append {pad s : List Char} (hpad : IsPadding pad) (hs : Stops Text.isBlank s)
    (n : Nat) : (⟨pad ++ s, n⟩ : Cursor).skipBlank = ⟨s, n + Text.byteLength pad⟩ := by
  rw [Cursor.skipBlank, Cursor.advance]
  dsimp only
  rw [takeWhile_append_of_stops hpad hs, dropWhile_append_of_stops hpad hs]

theorem bare_append {p : Char → Bool} {w s : List Char} (h : ∀ c ∈ w, p c = true)
    (hs : Stops p s) (n : Nat) :
    (⟨w ++ s, n⟩ : Cursor).bare p = (w, ⟨s, n + Text.byteLength w⟩) := by
  rw [Cursor.bare, Cursor.advance]
  dsimp only
  rw [takeWhile_append_of_stops h hs, dropWhile_append_of_stops h hs]

theorem expect_append {pad : List Char} {c : Char} (hpad : IsPadding pad)
    (hc : Text.isBlank c = false) (s : List Char) (n : Nat) :
    ∃ m, (⟨pad ++ c :: s, n⟩ : Cursor).expect c = .ok ⟨s, m⟩ := by
  rw [Cursor.expect, skipBlank_append hpad (stops_cons hc s)]
  dsimp only
  rw [if_pos rfl]
  exact ⟨_, rfl⟩

theorem quotedAfter_of_quotes {q : Char} {s w : List Char} (hq : isQuote q = true)
    (h : Quotes q s w) (rest : List Char) :
    quotedAfter q (w ++ q :: rest) = .ok (s, w ++ [q], rest) := by
  induction h with
  | nil =>
    have ne : q ≠ '\\' := by
      rintro rfl
      cases hq
    rw [List.nil_append, quotedAfter, if_pos rfl]
    · rfl
    · exact fun same => ne same
  | @char c s w hq' hb h ih =>
    rw [List.cons_append, quotedAfter, if_neg hq', ih]
    · rfl
    · exact fun same => hb same
  | @escaped c s w h ih =>
    rw [List.cons_append, List.cons_append, quotedAfter, ih]
    rfl

theorem yields_quotedText {q : Char} {s w : List Char} (hq : isQuote q = true) (h : Quotes q s w)
    (rest : List Char) (c : Cursor) : Yields (quotedText q (w ++ q :: rest) c) s rest := by
  rw [quotedText, quotedAfter_of_quotes hq h]
  exact ⟨_, rfl⟩

namespace RelaxedKey

variable {k w rest : List Char}

theorem ne_nil (h : RelaxedKey k w) : k ≠ [] := by
  cases h with
  | bare ne h => exact ne
  | quoted hq ne h => exact ne

theorem stops (h : RelaxedKey k w) (s : List Char) : Stops Text.isBlank (w ++ s) := by
  cases h with
  | bare ne h =>
    obtain ⟨c, w, rfl⟩ := List.exists_cons_of_ne_nil ne
    exact stops_cons (isBlank_of_isBareValue (isBareValue_of_isBareKey (h c List.mem_cons_self))) _
  | quoted hq =>
    exact stops_cons (isBlank_of_isQuote hq) _

theorem unclosed (h : RelaxedKey k w) (s : List Char) : Stops (· == '\x7d') (w ++ s) := by
  cases h with
  | bare ne h =>
    obtain ⟨c, w, rfl⟩ := List.exists_cons_of_ne_nil ne
    refine stops_cons (p := (· == '\x7d')) (beq_false_of_ne ?_) _
    rintro rfl
    cases h '\x7d' List.mem_cons_self
  | quoted hq =>
    refine stops_cons (p := (· == '\x7d')) ?_ _
    rcases isQuote_cases hq with rfl | rfl <;> rfl

theorem yields (h : RelaxedKey k w) (stop : Stops Cursor.isBareKey rest) (n : Nat) :
    Yields (key ⟨w ++ rest, n⟩) k rest := by
  cases h with
  | bare ne h =>
    have word := bare_append h stop n
    obtain ⟨c, k, rfl⟩ := List.exists_cons_of_ne_nil ne
    rw [key]
    dsimp only [List.cons_append] at word ⊢
    rw [isQuote_of_isBareValue (isBareValue_of_isBareKey (h c List.mem_cons_self)), word]
    exact ⟨_, rfl⟩
  | @quoted q _ w hq ne h =>
    rw [key]
    dsimp only [List.cons_append]
    rw [if_pos hq, List.append_assoc]
    exact yields_quotedText hq h rest _

end RelaxedKey

section Values

variable {fuel : Nat} {before pad rest : List Char} (n : Nat)

theorem relaxedValue_of_bare {w : List Char} (hbefore : IsPadding before) (ne : w ≠ [])
    (h : ∀ c ∈ w, Cursor.isBareValue c = true) (stop : Stops Cursor.isBareValue rest) :
    Yields (relaxedValue (fuel + 1) ⟨before ++ (w ++ rest), n⟩) (ofBare w) rest := by
  have word := bare_append h stop (n + Text.byteLength before)
  obtain ⟨d, w, rfl⟩ := List.exists_cons_of_ne_nil ne
  have bare := h d List.mem_cons_self
  rw [List.cons_append] at word ⊢
  rw [relaxedValue, skipBlank_append hbefore (stops_cons (isBlank_of_isBareValue bare) _)]
  dsimp only
  split
  · rename_i same
    cases same
  · rename_i same
    cases same
    cases bare
  · rename_i same
    cases same
    cases bare
  · rename_i same
    cases same
    rw [isQuote_of_isBareValue bare, word]
    exact ⟨_, rfl⟩

theorem relaxedValue_of_quotes {q : Char} {s w : List Char} (hbefore : IsPadding before)
    (hq : isQuote q = true) (h : Quotes q s w) :
    Yields (relaxedValue (fuel + 1) ⟨before ++ q :: (w ++ q :: rest), n⟩)
      (.text (String.ofList s)) rest := by
  have text := fun c => (yields_quotedText hq h rest c).map fun s => Tag.text (String.ofList s)
  rw [relaxedValue, skipBlank_append hbefore (stops_cons (isBlank_of_isQuote hq) _)]
  rcases isQuote_cases hq with rfl | rfl <;> exact text _

theorem relaxedValue_bracket {m : Nat} {s : List Char} {c inside : Cursor}
    (skip : c.skipBlank = ⟨'[' :: s, m⟩)
    (within : (⟨s, m + Text.byteLength ['[']⟩ : Cursor).skipBlank = inside) :
    relaxedValue (fuel + 1) c = match inside.rest with
      | ']' :: s => .ok (.list [], inside.advance [']'] s)
      | _ => (relaxedItems fuel inside.skipMark).map fun r => (.list r.1, r.2) := by
  subst within
  rw [relaxedValue, skip]
  rfl

theorem relaxedValue_brace {m : Nat} {s : List Char} {c inside : Cursor}
    (skip : c.skipBlank = ⟨'\x7b' :: s, m⟩)
    (within : (⟨s, m + Text.byteLength ['\x7b']⟩ : Cursor).skipBlank = inside) :
    relaxedValue (fuel + 1) c = match inside.rest with
      | '\x7d' :: s => .ok (.compound [], inside.advance ['\x7d'] s)
      | _ => (relaxedEntries fuel [] inside).map fun r => (.compound r.1, r.2) := by
  subst within
  rw [relaxedValue, skip]
  rfl

theorem relaxedValue_of_brackets (hbefore : IsPadding before) (hpad : IsPadding pad) :
    Yields (relaxedValue (fuel + 1) ⟨before ++ '[' :: (pad ++ ']' :: rest), n⟩) (.list [])
      rest := by
  rw [relaxedValue_bracket (skipBlank_append hbefore (stops_cons rfl _) n)
    (skipBlank_append hpad (stops_cons rfl _) _)]
  exact ⟨_, rfl⟩

theorem relaxedValue_of_bracket {s : List Char} {items : List Tag} (hbefore : IsPadding before)
    (hpad : IsPadding pad) (solid : Stops Text.isBlank s) (filled : Stops (· == ']') s)
    (h : ∀ k, Yields (relaxedItems fuel (⟨s, k⟩ : Cursor).skipMark) items rest) :
    Yields (relaxedValue (fuel + 1) ⟨before ++ '[' :: (pad ++ s), n⟩) (.list items) rest := by
  rw [relaxedValue_bracket (skipBlank_append hbefore (stops_cons rfl _) n)
    (skipBlank_append hpad solid _)]
  dsimp only
  split
  · cases filled ']' rfl
  · exact (h _).map Tag.list

theorem relaxedValue_of_braces (hbefore : IsPadding before) (hpad : IsPadding pad) :
    Yields (relaxedValue (fuel + 1) ⟨before ++ '\x7b' :: (pad ++ '\x7d' :: rest), n⟩)
      (.compound []) rest := by
  rw [relaxedValue_brace (skipBlank_append hbefore (stops_cons rfl _) n)
    (skipBlank_append hpad (stops_cons rfl _) _)]
  exact ⟨_, rfl⟩

theorem relaxedValue_of_brace {s : List Char} {entries : Tags} (hbefore : IsPadding before)
    (hpad : IsPadding pad) (solid : Stops Text.isBlank s) (filled : Stops (· == '\x7d') s)
    (h : ∀ k, Yields (relaxedEntries fuel [] ⟨s, k⟩) entries rest) :
    Yields (relaxedValue (fuel + 1) ⟨before ++ '\x7b' :: (pad ++ s), n⟩) (.compound entries)
      rest := by
  rw [relaxedValue_brace (skipBlank_append hbefore (stops_cons rfl _) n)
    (skipBlank_append hpad solid _)]
  dsimp only
  split
  · cases filled '\x7d' rfl
  · exact (h _).map Tag.compound

end Values

/-- The reader of blocks comes to the tag wherever the text stands. -/
def IsRead (t : Tag) (w : List Char) : Prop :=
  ∀ {fuel : Nat} {before rest : List Char} (n : Nat), 2 * w.length ≤ fuel → IsPadding before →
    Stops Cursor.isBareValue rest → Yields (relaxedValue fuel ⟨before ++ (w ++ rest), n⟩) t rest

theorem RelaxedLeaf.isRead {t : Tag} {w : List Char} (h : RelaxedLeaf t w) : IsRead t w := by
  intro fuel before rest n enough hbefore stop
  cases h with
  | bare ne h =>
    obtain ⟨fuel, rfl⟩ : ∃ f, fuel = f + 1 := Nat.exists_eq_add_one.mpr (by
      have := List.length_pos_iff.mpr ne
      omega)
    exact relaxedValue_of_bare n hbefore ne h stop
  | quoted hq h =>
    rw [List.cons_append, List.length_cons] at enough
    obtain ⟨fuel, rfl⟩ : ∃ f, fuel = f + 1 := Nat.exists_eq_add_one.mpr (by omega)
    rw [List.cons_append, List.cons_append, List.append_assoc]
    exact relaxedValue_of_quotes n hbefore hq h

theorem Writes.head {t : Tag} {w : List Char} (h : Writes .relaxed t w) :
    ∃ c s, w = c :: s ∧ Text.isBlank c = false ∧ c ≠ ']' ∧
      (Cursor.isBareValue c = true → ∀ d ∈ s, Cursor.isBareValue d = true) := by
  cases h with
  | leaf h =>
    cases h with
    | bare ne h =>
      obtain ⟨c, w, rfl⟩ := List.exists_cons_of_ne_nil ne
      have bare := h c List.mem_cons_self
      refine ⟨c, w, rfl, isBlank_of_isBareValue bare, ?_, fun _ d hd => h d (.tail _ hd)⟩
      rintro rfl
      cases bare
    | quoted hq =>
      refine ⟨_, _, rfl, isBlank_of_isQuote hq, ?_, fun bare => ?_⟩
      · rintro rfl
        cases hq
      · rw [isQuote_of_isBareValue bare] at hq
        cases hq
  | list => exact ⟨_, _, rfl, rfl, by decide, fun bare => by cases bare⟩
  | marked => exact ⟨_, _, rfl, rfl, by decide, fun bare => by cases bare⟩
  | compound => exact ⟨_, _, rfl, rfl, by decide, fun bare => by cases bare⟩

theorem Writes.stops {t : Tag} {w : List Char} (h : Writes .relaxed t w) (s : List Char) :
    Stops Text.isBlank (w ++ s) := by
  obtain ⟨c, w, rfl, solid, -⟩ := h.head
  exact stops_cons solid _

theorem Writes.skipMark {t : Tag} {w rest : List Char} (h : Writes .relaxed t w)
    (stop : Stops (· == ';') rest) (n : Nat) :
    (⟨w ++ rest, n⟩ : Cursor).skipMark = ⟨w ++ rest, n⟩ := by
  obtain ⟨c, w, rfl, -, -, word⟩ := h.head
  rw [Cursor.skipMark]
  dsimp only [List.cons_append]
  split
  · rename_i m s same
    obtain ⟨rfl, follow⟩ := List.cons.inj same
    rw [if_neg]
    intro mark
    have bare : Cursor.isBareValue c = true := by
      simp only [Bool.or_eq_true, beq_iff_eq] at mark
      rcases mark with (rfl | rfl) | rfl <;> rfl
    cases w with
    | nil =>
      rw [List.nil_append] at follow
      have := stop ';' (by rw [follow]; rfl)
      cases this
    | cons d w =>
      obtain ⟨rfl, -⟩ := List.cons.inj follow
      have := word bare ';' List.mem_cons_self
      cases this
  · rfl

def follow (parts : List (List Char)) (tail : List Char) : List Char :=
  match parts with
  | [] => tail
  | _ :: _ => ',' :: (Text.join [','] parts ++ tail)

theorem join_cons_append (part : List Char) (parts : List (List Char)) (tail : List Char) :
    Text.join [','] (part :: parts) ++ tail = part ++ follow parts tail := by
  cases parts with
  | nil => rfl
  | cons part' parts => rw [Text.join, List.append_assoc, List.append_assoc]; rfl

theorem follow_cons (part : List Char) (parts : List (List Char)) (tail : List Char) :
    follow (part :: parts) tail = ',' :: (part ++ follow parts tail) := by
  rw [follow, join_cons_append]

theorem length_join_cons (part part' : List Char) (parts : List (List Char)) :
    (Text.join [','] (part :: part' :: parts)).length =
      part.length + 1 + (Text.join [','] (part' :: parts)).length := by
  rw [Text.join, List.length_append, List.length_append, List.length_singleton]

theorem stops_follow {p : Char → Bool} {closer : Char} (comma : p ',' = false)
    (hp : p closer = false) (parts : List (List Char)) (rest : List Char) :
    Stops p (follow parts (closer :: rest)) := by
  cases parts with
  | nil => exact stops_cons hp _
  | cons part parts => exact stops_cons comma _

structure IsMark (c : Char) : Prop where
  solid : Text.isBlank c = false
  outside : Cursor.isBareValue c = false

theorem isMark_comma : IsMark ',' := ⟨rfl, rfl⟩

theorem isMark_bracket : IsMark ']' := ⟨rfl, rfl⟩

theorem isMark_brace : IsMark '\x7d' := ⟨rfl, rfl⟩

theorem exists_of_isRead {s : Slot} (read : IsRead s.tag s.text) (pads : s.IsPadded)
    {pad : List Char} (hpad : IsPadding pad) {fuel : Nat} (enough : 2 * s.text.length ≤ fuel)
    {c : Char} (hc : IsMark c) (tail : List Char) (n : Nat) :
    ∃ behind k, relaxedValue fuel ⟨pad ++ s.onward (c :: tail), n⟩ = .ok (s.tag, behind) ∧
      behind.skipBlank = ⟨c :: tail, k⟩ := by
  obtain ⟨m, value⟩ := read n enough hpad
    (pads.after.stops_append (fun _ => isBareValue_of_isBlank) (stops_cons hc.outside tail))
  exact ⟨_, _, value, skipBlank_append pads.after (stops_cons hc.solid tail) m⟩

theorem yields_relaxedItems {s : Slot} {slots : List Slot}
    (padded : ∀ s' ∈ s :: slots, s'.IsPadded) (inside : ∀ s' ∈ s :: slots, IsRead s'.tag s'.text)
    {fuel : Nat} {pad : List Char} (hpad : IsPadding pad) (rest : List Char) (n : Nat)
    (enough : 2 * (Text.join [','] ((s :: slots).map Slot.written)).length < fuel) :
    Yields
      (relaxedItems fuel ⟨pad ++ s.onward (follow (slots.map Slot.written) (']' :: rest)), n⟩)
      ((s :: slots).map Slot.tag) rest := by
  induction slots generalizing s pad fuel n with
  | nil =>
    obtain ⟨pads, -⟩ := List.forall_mem_cons.mp padded
    obtain ⟨read, -⟩ := List.forall_mem_cons.mp inside
    have long := s.length_text_le
    rw [List.map_singleton, Text.join] at enough
    obtain ⟨fuel, rfl⟩ : ∃ f, fuel = f + 1 := Nat.exists_eq_add_one.mpr (by omega)
    have short : 2 * s.text.length ≤ fuel := by omega
    obtain ⟨behind, k, value, close⟩ := exists_of_isRead read pads hpad short isMark_bracket rest n
    rw [List.map_nil, follow, relaxedItems, value]
    dsimp only
    rw [close]
    exact ⟨_, rfl⟩
  | cons s' slots ih =>
    obtain ⟨pads, padded⟩ := List.forall_mem_cons.mp padded
    obtain ⟨read, inside⟩ := List.forall_mem_cons.mp inside
    have long := s.length_text_le
    rw [List.map_cons, List.map_cons, length_join_cons] at enough
    obtain ⟨fuel, rfl⟩ : ∃ f, fuel = f + 1 := Nat.exists_eq_add_one.mpr (by omega)
    have short : 2 * s.text.length ≤ fuel := by omega
    obtain ⟨behind, k, value, comma⟩ := exists_of_isRead read pads hpad short isMark_comma
      (s'.before ++ s'.onward (follow (slots.map Slot.written) (']' :: rest))) n
    rw [List.map_cons, follow_cons, s'.written_append, relaxedItems, value]
    dsimp only
    rw [comma]
    exact (ih padded inside (padded s' List.mem_cons_self).before _
      (by rw [List.map_cons]; omega)).map (s.tag :: ·)

theorem listText_append (pad : List Char) (slots : List Slot) (rest : List Char) :
    listText pad slots ++ rest =
      '[' :: (pad ++ (Text.join [','] (slots.map Slot.written) ++ ']' :: rest)) := by
  simp only [listText, List.append_assoc, List.cons_append, List.nil_append]

theorem length_listText (pad : List Char) (slots : List Slot) :
    (listText pad slots).length =
      pad.length + (Text.join [','] (slots.map Slot.written)).length + 2 := by
  simp only [listText, List.length_append, List.length_cons, List.length_nil]
  omega

theorem isRead_listText {pad : List Char} {slots : List Slot} (hpad : IsPadding pad)
    (padded : ∀ s ∈ slots, s.IsPadded) (inside : ∀ s ∈ slots, Writes .relaxed s.tag s.text)
    (read : ∀ s ∈ slots, IsRead s.tag s.text) :
    IsRead (.list (slots.map Slot.tag)) (listText pad slots) := by
  intro fuel before rest n enough hbefore stop
  rw [length_listText] at enough
  rw [listText_append]
  obtain ⟨fuel, rfl⟩ : ∃ f, fuel = f + 1 := Nat.exists_eq_add_one.mpr (by omega)
  cases slots with
  | nil => exact relaxedValue_of_brackets n hbefore hpad
  | cons s slots =>
    obtain ⟨pads, -⟩ := List.forall_mem_cons.mp padded
    obtain ⟨first, -⟩ := List.forall_mem_cons.mp inside
    have semicolon (c : Char) (blank : Text.isBlank c = true) : (c == ';') = false := by
      refine beq_false_of_ne ?_
      rintro rfl
      cases blank
    -- The white space before the first value goes with that after the bracket.
    rw [List.map_cons, join_cons_append, s.written_append, ← List.append_assoc]
    refine relaxedValue_of_bracket n hbefore (hpad.append pads.before) (first.stops _) ?_
      fun k => ?_
    · obtain ⟨c, w, same, -, filled, -⟩ := first.head
      rw [Slot.onward, same]
      exact stops_cons (p := (· == ']')) (beq_false_of_ne filled) _
    · rw [Slot.onward,
        first.skipMark (pads.after.stops_append semicolon (stops_follow rfl rfl _ _))]
      exact yields_relaxedItems padded read (List.forall_mem_nil _) rest k (by omega)

theorem markedText_append (pad : List Char) (m : Char) (slots : List Slot) (rest : List Char) :
    markedText pad m slots ++ rest = '[' :: (pad ++ m :: ';' ::
      (Text.join [','] (slots.map Slot.written) ++ ']' :: rest)) := by
  simp only [markedText, List.append_assoc, List.cons_append, List.nil_append]

theorem length_markedText (pad : List Char) (m : Char) (slots : List Slot) :
    (markedText pad m slots).length =
      pad.length + (Text.join [','] (slots.map Slot.written)).length + 4 := by
  simp only [markedText, List.length_append, List.length_cons, List.length_nil]
  omega

theorem IsTypeMark.solid {m : Char} (h : IsTypeMark m) : Text.isBlank m = false := by
  rcases h with rfl | rfl | rfl <;> rfl

theorem skipMark_of_isTypeMark {m : Char} (h : IsTypeMark m) (s : List Char) (n : Nat) :
    ∃ k, (⟨m :: ';' :: s, n⟩ : Cursor).skipMark = ⟨s, k⟩ := by
  rcases h with rfl | rfl | rfl <;> exact ⟨_, rfl⟩

theorem isRead_markedText {pad : List Char} {m : Char} {slots : List Slot} (hpad : IsPadding pad)
    (hm : IsTypeMark m) (filled : slots ≠ []) (padded : ∀ s ∈ slots, s.IsPadded)
    (read : ∀ s ∈ slots, IsRead s.tag s.text) :
    IsRead (.list (slots.map Slot.tag)) (markedText pad m slots) := by
  intro fuel before rest n enough hbefore stop
  rw [length_markedText] at enough
  rw [markedText_append]
  obtain ⟨fuel, rfl⟩ : ∃ f, fuel = f + 1 := Nat.exists_eq_add_one.mpr (by omega)
  obtain ⟨s, slots, rfl⟩ := List.exists_cons_of_ne_nil filled
  refine relaxedValue_of_bracket n hbefore hpad (stops_cons hm.solid _) ?_ fun k => ?_
  · rcases hm with rfl | rfl | rfl <;> exact stops_cons rfl _
  · obtain ⟨i, mark⟩ := skipMark_of_isTypeMark hm
      (Text.join [','] ((s :: slots).map Slot.written) ++ ']' :: rest) k
    rw [mark, List.map_cons, join_cons_append, s.written_append]
    exact yields_relaxedItems padded read (padded s List.mem_cons_self).before rest i (by omega)

theorem exists_relaxedEntries_eq {m : Member} (name : RelaxedKey m.key m.text)
    (read : IsRead m.value.tag m.value.text) (pads : m.IsPadded) {pad : List Char}
    (hpad : IsPadding pad) {fuel : Nat} (enough : 2 * m.value.text.length ≤ fuel) {c : Char}
    (hc : IsMark c) (tail : List Char) (entries : Tags) (n : Nat) :
    ∃ k, relaxedEntries (fuel + 1) entries ⟨pad ++ m.onward (c :: tail), n⟩ =
      match c :: tail with
      | ',' :: s =>
        relaxedEntries fuel (Dictionary.insert (String.ofList m.key) m.value.tag entries)
          ((⟨c :: tail, k⟩ : Cursor).advance [','] s)
      | '\x7d' :: s => .ok (Dictionary.insert (String.ofList m.key) m.value.tag entries,
          (⟨c :: tail, k⟩ : Cursor).advance ['\x7d'] s)
      | d :: s =>
        .error (.expectedSeparator '\x7d' ((⟨c :: tail, k⟩ : Cursor).advance [d] s).offset)
      | [] => .error (.expectedSeparator '\x7d' k) := by
  have stop : Stops Cursor.isBareKey
      (m.after ++ ':' :: (m.value.before ++ m.value.onward (c :: tail))) :=
    pads.after.stops_append (fun _ h => isBareKey_eq_false (isBareValue_of_isBlank h))
      (stops_cons rfl _)
  obtain ⟨i, word⟩ := name.yields stop (n + Text.byteLength pad)
  obtain ⟨j, colon⟩ := expect_append pads.after (c := ':') rfl
    (m.value.before ++ m.value.onward (c :: tail)) i
  obtain ⟨behind, k, value, next⟩ :=
    exists_of_isRead read pads.value pads.value.before enough hc tail j
  refine ⟨k, ?_⟩
  rw [Member.onward, relaxedEntries, skipBlank_append hpad (name.stops _), word]
  split
  · rename_i h
    cases h
  · rename_i h
    exact absurd (Prod.mk.inj (Except.ok.inj h)).1 name.ne_nil
  · rename_i h
    cases h
    rw [colon]
    dsimp only
    rw [value]
    dsimp only
    rewrite [next]
    rfl

theorem yields_relaxedEntries {m : Member} {members : List Member}
    (padded : ∀ m' ∈ m :: members, m'.IsPadded)
    (keys : ∀ m' ∈ m :: members, RelaxedKey m'.key m'.text)
    (inside : ∀ m' ∈ m :: members, IsRead m'.value.tag m'.value.text) {fuel : Nat}
    {pad : List Char} (hpad : IsPadding pad) (entries : Tags) (rest : List Char) (n : Nat)
    (enough : 2 * (Text.join [','] ((m :: members).map Member.written)).length < fuel) :
    Yields
      (relaxedEntries fuel entries
        ⟨pad ++ m.onward (follow (members.map Member.written) ('\x7d' :: rest)), n⟩)
      (((m :: members).map Member.entry).foldl (fun d e => Dictionary.insert e.1 e.2 d) entries)
      rest := by
  induction members generalizing m pad fuel entries n with
  | nil =>
    obtain ⟨pads, -⟩ := List.forall_mem_cons.mp padded
    obtain ⟨name, -⟩ := List.forall_mem_cons.mp keys
    obtain ⟨read, -⟩ := List.forall_mem_cons.mp inside
    have long := m.length_value_lt
    rw [List.map_singleton, Text.join] at enough
    obtain ⟨fuel, rfl⟩ : ∃ f, fuel = f + 1 := Nat.exists_eq_add_one.mpr (by omega)
    have short : 2 * m.value.text.length ≤ fuel := by omega
    obtain ⟨k, step⟩ :=
      exists_relaxedEntries_eq name read pads hpad short isMark_brace rest entries n
    rw [List.map_nil, follow, step]
    exact ⟨_, rfl⟩
  | cons m' members ih =>
    obtain ⟨pads, padded⟩ := List.forall_mem_cons.mp padded
    obtain ⟨name, keys⟩ := List.forall_mem_cons.mp keys
    obtain ⟨read, inside⟩ := List.forall_mem_cons.mp inside
    have long := m.length_value_lt
    rw [List.map_cons, List.map_cons, length_join_cons] at enough
    obtain ⟨fuel, rfl⟩ : ∃ f, fuel = f + 1 := Nat.exists_eq_add_one.mpr (by omega)
    have short : 2 * m.value.text.length ≤ fuel := by omega
    obtain ⟨k, step⟩ := exists_relaxedEntries_eq name read pads hpad short isMark_comma
      (m'.before ++ m'.onward (follow (members.map Member.written) ('\x7d' :: rest))) entries n
    rw [List.map_cons, follow_cons, m'.written_append, step]
    exact ih padded keys inside (padded m' List.mem_cons_self).before _ _
      (by rw [List.map_cons]; omega)

theorem compoundText_append (pad : List Char) (members : List Member) (rest : List Char) :
    compoundText pad members ++ rest =
      '\x7b' :: (pad ++ (Text.join [','] (members.map Member.written) ++ '\x7d' :: rest)) := by
  simp only [compoundText, List.append_assoc, List.cons_append, List.nil_append]

theorem length_compoundText (pad : List Char) (members : List Member) :
    (compoundText pad members).length =
      pad.length + (Text.join [','] (members.map Member.written)).length + 2 := by
  simp only [compoundText, List.length_append, List.length_cons, List.length_nil]
  omega

theorem isRead_compoundText {pad : List Char} {members : List Member} (hpad : IsPadding pad)
    (padded : ∀ m ∈ members, m.IsPadded) (keys : ∀ m ∈ members, RelaxedKey m.key m.text)
    (read : ∀ m ∈ members, IsRead m.value.tag m.value.text) :
    IsRead (.compound (Dictionary.ofList (members.map Member.entry)))
      (compoundText pad members) := by
  intro fuel before rest n enough hbefore stop
  rw [length_compoundText] at enough
  rw [compoundText_append]
  obtain ⟨fuel, rfl⟩ : ∃ f, fuel = f + 1 := Nat.exists_eq_add_one.mpr (by omega)
  cases members with
  | nil => exact relaxedValue_of_braces n hbefore hpad
  | cons m members =>
    obtain ⟨pads, -⟩ := List.forall_mem_cons.mp padded
    obtain ⟨name, -⟩ := List.forall_mem_cons.mp keys
    rw [List.map_cons, join_cons_append, m.written_append, ← List.append_assoc]
    exact relaxedValue_of_brace n hbefore (hpad.append pads.before) (name.stops _) (name.unclosed _)
      fun k => yields_relaxedEntries padded keys read (List.forall_mem_nil _) [] rest k (by omega)

theorem Writes.isRead {t : Tag} {w : List Char} (h : Writes .relaxed t w) : IsRead t w := by
  induction h with
  | leaf h => exact RelaxedLeaf.isRead h
  | list padding padded inside ih => exact isRead_listText padding padded inside ih
  | marked padding hm filled padded _ ih => exact isRead_markedText padding hm filled padded ih
  | compound padding padded keys inside ih => exact isRead_compoundText padding padded keys ih

theorem Writes.relaxed_eq {t : Tag} {w before after : List Char} (h : Writes .relaxed t w)
    (hbefore : IsPadding before) (hafter : IsPadding after) :
    relaxed (before ++ (w ++ after)) = .ok t := by
  have stop : Stops Cursor.isBareValue after := hafter.stops fun _ => isBareValue_of_isBlank
  have enough : 2 * w.length ≤ 2 * (before ++ (w ++ after)).length + 2 := by
    rw [List.length_append, List.length_append]
    omega
  obtain ⟨m, value⟩ := h.isRead 0 enough hbefore stop
  have atEnd : (⟨after, m⟩ : Cursor).skipBlank = ⟨[], m + Text.byteLength after⟩ := by
    have := skipBlank_append hafter (stops_nil _) m
    rwa [List.append_nil] at this
  rw [relaxed, value]
  dsimp only
  rw [atEnd]
  rfl

end ItemLexicon.Tag
