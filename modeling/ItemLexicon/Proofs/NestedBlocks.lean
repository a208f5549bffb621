import Mathlib.Data.List.TakeWhile
import ItemLexicon.Proofs.AgreedBlocks
import ItemLexicon.Proofs.ProperVariation

namespace ItemLexicon

namespace Segment

/-- The number of groups left open behind a text, with a number of them open before; none when a
closing bracket has no opening one. -/
def height (n : Nat) : List Char → Option Nat
  | [] => some n
  | c :: s => if n = 0 ∧ (c = '\x7d' ∨ c = ']') then none else height (depthAfter n c) s

def IsPaired (s : List Char) : Prop := height 0 s = some 0

inductive Encloses : Char → Char → Prop
  | braces : Encloses '\x7b' '\x7d'
  | brackets : Encloses '[' ']'

instance (s : List Char) : Decidable (IsPaired s) :=
  inferInstanceAs (Decidable (height 0 s = some 0))

theorem height_append (n : Nat) (s t : List Char) :
    height n (s ++ t) = (height n s).bind fun m => height m t := by
  induction s generalizing n with
  | nil => rfl
  | cons c s ih =>
    rw [List.cons_append, height, height]
    split
    · rfl
    · exact ih _

theorem depthAfter_add {n : Nat} {c : Char} (h : ¬(n = 0 ∧ (c = '\x7d' ∨ c = ']'))) (k : Nat) :
    depthAfter (n + k) c = depthAfter n c + k := by
  simp only [depthAfter, Bool.or_eq_true, beq_iff_eq]
  split
  · omega
  · split
    · have : n ≠ 0 := fun zero => h ⟨zero, ‹_›⟩
      omega
    · rfl

theorem height_add {n m : Nat} {s : List Char} (h : height n s = some m) (k : Nat) :
    height (n + k) s = some (m + k) := by
  induction s generalizing n with
  | nil =>
    cases h
    rfl
  | cons c s ih =>
    rw [height] at h ⊢
    split at h
    · cases h
    · rename_i deep
      rw [if_neg fun closed => deep ⟨by omega, closed.2⟩, depthAfter_add deep]
      exact ih h

theorem isBracket_of_isBlank {c : Char} (h : Text.isBlank c = true) : isBracket c = false := by
  rw [← Bool.not_eq_true]
  intro bracket
  simp only [isBracket, Bool.or_eq_true, beq_iff_eq] at bracket
  rcases bracket with ((rfl | rfl) | rfl) | rfl <;> cases h

namespace IsPaired

variable {s t : List Char}

theorem nil : IsPaired [] := rfl

theorem append (hs : IsPaired s) (ht : IsPaired t) : IsPaired (s ++ t) := by
  rw [IsPaired, height_append, hs]
  exact ht

theorem cons {c : Char} (hc : isBracket c = false) (hs : IsPaired s) : IsPaired (c :: s) := by
  rw [IsPaired, height, depthAfter_of_not_isBracket hc, if_neg]
  · exact hs
  · rintro ⟨-, rfl | rfl⟩ <;> cases hc

theorem group {o c : Char} (pair : Encloses o c) (hs : IsPaired s) (ht : IsPaired t) :
    IsPaired (o :: s ++ c :: t) := by
  have inside : height 1 s = some 1 := height_add hs 1
  have whole : height 0 (o :: s) = height 1 s := by cases pair <;> rfl
  rw [IsPaired, height_append, whole, inside]
  cases pair <;> exact ht

end IsPaired

end Segment

namespace Tag

open Segment (IsPaired Encloses isBracket)

mutual

def quotedTexts : List Char → List (List Char)
  | [] => []
  | c :: s => if isQuote c then quotedTextsAfter c s else quotedTexts s

def quotedTextsAfter (quote : Char) : List Char → List (List Char)
  | [] => [[]]
  | '\\' :: c :: s => (quotedTextsAfter quote s).modifyHead ('\\' :: c :: ·)
  | c :: s =>
    if c = quote then [] :: quotedTexts s else (quotedTextsAfter quote s).modifyHead (c :: ·)

end

theorem isBracket_of_isQuote {q : Char} (h : isQuote q = true) : isBracket q = false := by
  rcases isQuote_cases h with rfl | rfl <;> rfl

theorem quotedTextsAfter_append {q : Char} {t w : List Char} (hq : isQuote q = true)
    (h : Quotes q t w) (s : List Char) :
    quotedTextsAfter q (w ++ q :: s) = w :: quotedTexts s := by
  induction h with
  | nil =>
    rw [List.nil_append, quotedTextsAfter, if_pos rfl]
    rintro c rest rfl
    cases hq
  | char ne hb h ih =>
    rw [List.cons_append, quotedTextsAfter, if_neg ne, ih]
    · rfl
    · exact fun _ _ same => absurd same hb
  | escaped c h ih =>
    rw [List.cons_append, List.cons_append, quotedTextsAfter, ih]
    rfl

theorem exists_quotes_of_quotedAfter {q : Char} {s t passed rest : List Char}
    (h : quotedAfter q s = .ok (t, passed, rest)) : ∃ w, s = w ++ q :: rest ∧ Quotes q t w := by
  fun_induction quotedAfter q s generalizing t passed rest with
  | case1 => cases h
  | case2 => cases h
  | case3 c s ih =>
    obtain ⟨⟨t, passed, rest⟩, read, same⟩ := exists_of_map_eq_ok h
    cases same
    obtain ⟨w, rfl, quotes⟩ := ih read
    exact ⟨'\\' :: c :: w, rfl, .escaped c quotes⟩
  | case4 s hb =>
    cases h
    exact ⟨[], rfl, .nil⟩
  | case5 c s hb ne ih =>
    obtain ⟨⟨t, passed, rest⟩, read, same⟩ := exists_of_map_eq_ok h
    cases same
    obtain ⟨w, rfl, quotes⟩ := ih read
    exact ⟨c :: w, rfl, .char ne hb quotes⟩

def isInert (c : Char) : Bool := !isBracket c && !isQuote c

/-- From the one text on, a reader comes to the other one over nested groups. -/
inductive Passes : List Char → List Char → Prop
  | here {s : List Char} : Passes s s
  | inert {c : Char} {s rest : List Char} (hc : isInert c = true) (more : Passes s rest) :
      Passes (c :: s) rest
  | quoted {q : Char} {t w s rest : List Char} (hq : isQuote q = true) (text : Quotes q t w)
      (more : Passes s rest) : Passes (q :: (w ++ q :: s)) rest
  | group {o c : Char} {s t rest : List Char} (pair : Encloses o c) (inside : Passes s (c :: t))
      (more : Passes t rest) : Passes (o :: s) rest

namespace Passes

variable {s t rest : List Char}

theorem trans (h : Passes s t) (h' : Passes t rest) : Passes s rest := by
  induction h with
  | here => exact h'
  | inert hc _ ih => exact .inert hc (ih h')
  | quoted hq text _ ih => exact .quoted hq text (ih h')
  | group pair inside _ _ ih => exact .group pair inside (ih h')

theorem append {w : List Char} (h : ∀ c ∈ w, isInert c = true) (s : List Char) :
    Passes (w ++ s) s := by
  induction w with
  | nil => exact .here
  | cons c w ih =>
    obtain ⟨hc, rest⟩ := List.forall_mem_cons.mp h
    exact .inert hc (ih rest)

theorem dropWhile {p : Char → Bool} (hp : ∀ {c}, p c = true → isInert c = true) (s : List Char) :
    Passes s (s.dropWhile p) := by
  have run := append (fun c hc => hp (List.all_eq_true.mp List.all_takeWhile c hc))
    (s.dropWhile p) (w := s.takeWhile p)
  rwa [List.takeWhile_append_dropWhile] at run

theorem exists_append (h : Passes s rest) : ∃ w ts, s = w ++ rest ∧
    quotedTexts s = ts ++ quotedTexts rest ∧ ((∀ t ∈ ts, IsPaired t) → IsPaired w) := by
  induction h with
  | here => exact ⟨[], [], rfl, rfl, fun _ => .nil⟩
  | @inert c s rest hc _ ih =>
    obtain ⟨w, ts, rfl, texts, paired⟩ := ih
    rw [isInert, Bool.and_eq_true, Bool.not_eq_true', Bool.not_eq_true'] at hc
    refine ⟨c :: w, ts, rfl, ?_, fun hts => .cons hc.1 (paired hts)⟩
    rw [quotedTexts, if_neg (Bool.not_eq_true _ ▸ hc.2), texts]
  | @quoted q t w s rest hq text _ ih =>
    obtain ⟨v, ts, rfl, texts, paired⟩ := ih
    refine ⟨q :: (w ++ q :: v), w :: ts, by simp, ?_, fun hts => ?_⟩
    · rw [quotedTexts, if_pos hq, quotedTextsAfter_append hq text, texts]
      rfl
    · obtain ⟨hw, hts⟩ := List.forall_mem_cons.mp hts
      have plain := isBracket_of_isQuote hq
      exact .cons plain (hw.append (.cons plain (paired hts)))
  | @group o c s t rest pair _ _ inside more =>
    obtain ⟨w, ts, rfl, texts, paired⟩ := inside
    obtain ⟨v, ts', rfl, texts', paired'⟩ := more
    refine ⟨o :: w ++ c :: v, ts ++ ts', by simp, ?_, fun hts => ?_⟩
    · rw [List.append_assoc, ← texts']
      cases pair <;> exact texts
    · obtain ⟨hts, hts'⟩ := List.forall_mem_append.mp hts
      exact .group pair (paired hts) (paired' hts')

end Passes

theorem isInert_of_isBlank {c : Char} (h : Text.isBlank c = true) : isInert c = true := by
  rw [isInert, Segment.isBracket_of_isBlank h, Bool.not_false, Bool.true_and, Bool.not_eq_true',
    ← Bool.not_eq_true]
  intro quote
  rw [isBlank_of_isQuote quote] at h
  cases h

theorem isInert_of_isBareValue {c : Char} (h : Cursor.isBareValue c = true) :
    isInert c = true := by
  rw [isInert, isQuote_of_isBareValue h, Bool.and_eq_true, Bool.not_eq_true', ← Bool.not_eq_true]
  refine ⟨fun bracket => ?_, rfl⟩
  simp only [isBracket, Bool.or_eq_true, beq_iff_eq] at bracket
  rcases bracket with ((rfl | rfl) | rfl) | rfl <;> cases h

theorem passes_skipBlank (c : Cursor) : Passes c.rest c.skipBlank.rest :=
  .dropWhile isInert_of_isBlank c.rest

theorem passes_skipMark (c : Cursor) : Passes c.rest c.skipMark.rest := by
  rw [Cursor.skipMark]
  split
  · rename_i m s same
    split
    · rename_i mark
      rw [Bool.or_eq_true, Bool.or_eq_true, beq_iff_eq, beq_iff_eq, beq_iff_eq] at mark
      have inert : isInert m = true := by rcases mark with (rfl | rfl) | rfl <;> rfl
      rw [same]
      exact .inert inert (.inert rfl .here)
    · exact .here
  · exact .here

theorem passes_expect {wanted : Char} (hw : isInert wanted = true) {c c' : Cursor}
    (h : c.expect wanted = .ok c') : Passes c.rest c'.rest := by
  refine (passes_skipBlank c).trans ?_
  rw [Cursor.expect] at h
  generalize c.skipBlank = c at h ⊢
  split at h
  · cases h
  · rename_i d s same
    split at h
    · rename_i found
      cases h
      rw [same, found]
      exact .inert hw .here
    · cases h

theorem passes_quotedText {q : Char} (hq : isQuote q = true) {s t : List Char} {c c' : Cursor}
    (h : quotedText q s c = .ok (t, c')) : Passes (q :: s) c'.rest := by
  obtain ⟨⟨t', passed, rest⟩, read, same⟩ := exists_of_map_eq_ok h
  cases same
  obtain ⟨w, rfl, quotes⟩ := exists_quotes_of_quotedAfter read
  exact .quoted hq quotes .here

theorem passes_key {k : List Char} {c c' : Cursor} (h : key c = .ok (k, c')) :
    Passes c.rest c'.rest := by
  rw [key] at h
  split at h
  · cases h
    exact .here
  · rename_i q s same
    split at h
    · rename_i hq
      rw [same]
      exact passes_quotedText hq h
    · cases h
      exact .dropWhile (fun bare => isInert_of_isBareValue (isBareValue_of_isBareKey bare)) c.rest

structure ReadsNested (fuel : Nat) : Prop where
  value : ∀ {c c' : Cursor} {t : Tag}, relaxedValue fuel c = .ok (t, c') → Passes c.rest c'.rest
  entries : ∀ {c c' : Cursor} {es es' : Tags}, relaxedEntries fuel es c = .ok (es', c') →
    Passes c.rest ('\x7d' :: c'.rest)
  items : ∀ {c c' : Cursor} {ts : List Tag}, relaxedItems fuel c = .ok (ts, c') →
    Passes c.rest (']' :: c'.rest)

theorem ReadsNested.braces {fuel : Nat} (h : ReadsNested fuel) {c c' : Cursor} {t : Tag}
    {s : List Char} (brace : c.skipBlank.rest = '\x7b' :: s)
    (read : relaxedValue (fuel + 1) c = .ok (t, c')) : Passes s ('\x7d' :: c'.rest) := by
  have skip : c.skipBlank = ⟨'\x7b' :: s, c.skipBlank.offset⟩ :=
    congrArg (fun rest => (⟨rest, c.skipBlank.offset⟩ : Cursor)) brace
  rw [relaxedValue_brace skip rfl] at read
  refine (passes_skipBlank ⟨s, c.skipBlank.offset + Text.byteLength ['\x7b']⟩).trans ?_
  split at read
  · rename_i closed
    cases read
    rw [closed]
    exact .here
  · obtain ⟨⟨es, rest⟩, entries, same⟩ := exists_of_map_eq_ok read
    cases same
    exact h.entries entries

theorem readsNested (fuel : Nat) : ReadsNested fuel := by
  induction fuel with
  | zero =>
    refine ⟨?_, ?_, ?_⟩
    · intro _ _ _ h
      cases h
    · intro _ _ _ _ h
      cases h
    · intro _ _ _ h
      cases h
  | succ fuel ih =>
    refine ⟨?value, ?entries, ?items⟩
    case value =>
      intro c c' t h
      refine (passes_skipBlank c).trans ?_
      have braces {s : List Char} (brace : c.skipBlank.rest = '\x7b' :: s) := ih.braces brace h
      rw [relaxedValue] at h
      generalize c.skipBlank = c at h braces ⊢
      dsimp only at h
      split at h
      · cases h
      · rename_i same
        rw [same]
        exact .group .braces (braces same) .here
      · rename_i s same
        rw [same]
        refine .group .brackets ?_ .here
        refine (passes_skipBlank (c.advance ['['] s)).trans ?_
        split at h
        · rename_i closed
          cases h
          rw [closed]
          exact .here
        · obtain ⟨⟨ts, rest⟩, items, result⟩ := exists_of_map_eq_ok h
          cases result
          exact (passes_skipMark _).trans (ih.items items)
      · rename_i q s _ _ same
        split at h
        · rename_i hq
          obtain ⟨⟨w, rest⟩, text, result⟩ := exists_of_map_eq_ok h
          cases result
          rw [same]
          exact passes_quotedText hq text
        · have word : Passes c.rest (c.bare Cursor.isBareValue).2.rest :=
            .dropWhile isInert_of_isBareValue c.rest
          split at h
          · cases h
          · rename_i bare
            cases h
            rwa [bare] at word
    case entries =>
      intro c c' es es' h
      rw [relaxedEntries] at h
      refine (passes_skipBlank c).trans ?_
      split at h
      · cases h
      · cases h
      · rename_i name
        refine (passes_key name).trans ?_
        split at h
        · cases h
        · rename_i colon
          refine (passes_expect rfl colon).trans ?_
          split at h
          · cases h
          · rename_i value
            refine (ih.value value).trans ((passes_skipBlank _).trans ?_)
            dsimp only at h
            split at h
            · rename_i comma
              rw [comma]
              exact .inert rfl (ih.entries h)
            · rename_i brace
              cases h
              rw [brace]
              exact .here
            · cases h
            · cases h
    case items =>
      intro c c' ts h
      rw [relaxedItems] at h
      split at h
      · cases h
      · rename_i value
        refine (ih.value value).trans ((passes_skipBlank _).trans ?_)
        dsimp only at h
        split at h
        · rename_i comma
          obtain ⟨⟨ts', rest⟩, items, result⟩ := exists_of_map_eq_ok h
          cases result
          rw [comma]
          exact .inert rfl (ih.items items)
        · rename_i bracket
          cases h
          rw [bracket]
          exact .here
        · cases h
        · cases h

end Tag

namespace Json.Document

open Tag (Passes Quotes isInert_of_isBlank isInert_of_isBareValue)

theorem TextReading.exists_quotes {s rest : List Char} {ps : List Piece}
    (h : TextReading s ps rest) : ∃ t w, s = w ++ '"' :: rest ∧ Quotes '"' t w := by
  induction h with
  | quote => exact ⟨_, [], rfl, .nil⟩
  | @unit a b c d n s rest ps h more ih =>
    obtain ⟨t, w, rfl, quotes⟩ := ih
    have plain := plain_of_hexUnit? h
    simp only [List.forall_mem_cons] at plain
    obtain ⟨ha, hb, hc, hd, -⟩ := plain
    exact ⟨_, '\\' :: 'u' :: a :: b :: c :: d :: w, rfl, .escaped 'u' <|
      .char ha.1 ha.2 <| .char hb.1 hb.2 <| .char hc.1 hc.2 <| .char hd.1 hd.2 quotes⟩
  | @escaped e c s rest ps h more ih =>
    obtain ⟨t, w, rfl, quotes⟩ := ih
    exact ⟨_, '\\' :: e :: w, rfl, .escaped e quotes⟩
  | @char c s rest ps visible hb hq more ih =>
    obtain ⟨t, w, rfl, quotes⟩ := ih
    exact ⟨_, c :: w, rfl, .char hq hb quotes⟩

theorem passes_quoted? {s rest : List Char} {ps : List Piece} (h : quoted? s = some (ps, rest)) :
    Passes ('"' :: s) rest := by
  obtain ⟨t, w, rfl, quotes⟩ := (quoted?_eq_some_iff.mp h).exists_quotes
  exact .quoted rfl quotes .here

theorem passes_skipSpace (s : List Char) : Passes s (skipSpace s) :=
  .dropWhile (fun space => isInert_of_isBlank (isBlank_of_isSpace space)) s

structure ReadsNested (fuel : Nat) : Prop where
  value : ∀ {s rest : List Char} {d : Document}, value? fuel s = some (d, rest) → Passes s rest
  items : ∀ {s rest : List Char} {ds : List Document}, items? fuel s = some (ds, rest) →
    Passes s (']' :: rest)
  members : ∀ {s rest : List Char} {ms : List (List Piece × Document)},
    members? fuel s = some (ms, rest) → Passes s ('\x7d' :: rest)

namespace ReadsNested

variable {fuel : Nat} {s rest : List Char}

theorem braces (h : ReadsNested fuel) {d : Document} (read : Reading fuel ('\x7b' :: s) d rest) :
    Passes s ('\x7d' :: rest) := by
  generalize same : '\x7b' :: s = u at read
  cases read with
  | braces closed =>
    obtain ⟨-, rfl⟩ := List.cons.inj same
    exact closed ▸ passes_skipSpace s
  | object members =>
    obtain ⟨-, rfl⟩ := List.cons.inj same
    exact (passes_skipSpace s).trans (h.members members)
  | @number n w spelled =>
    have word := spelled.isBareValue
    obtain ⟨c, v, form⟩ := List.exists_cons_of_ne_nil spelled.signed_ne_nil
    rw [form] at same word
    obtain ⟨rfl, -⟩ := List.cons.inj same
    cases word '\x7b' List.mem_cons_self
  | _ => cases same

theorem reading (h : ReadsNested fuel) {d : Document} (read : Reading fuel s d rest) :
    Passes s rest := by
  have word {w : List Char} (hw : w.all Tag.isInert = true) : Passes (w ++ rest) rest :=
    .append (List.all_eq_true.mp hw) rest
  cases read with
  | null => exact word (w := ['n', 'u', 'l', 'l']) rfl
  | trueWord => exact word (w := ['t', 'r', 'u', 'e']) rfl
  | falseWord => exact word (w := ['f', 'a', 'l', 's', 'e']) rfl
  | text quoted => exact passes_quoted? quoted
  | @brackets s rest closed => exact .group .brackets (closed ▸ passes_skipSpace s) .here
  | @array s rest ds items =>
    exact .group .brackets ((passes_skipSpace s).trans (h.items items)) .here
  | braces closed => exact .group .braces (h.braces (.braces closed)) .here
  | object members => exact .group .braces (h.braces (.object members)) .here
  | number spelled =>
    exact .append (fun c hc => isInert_of_isBareValue (spelled.isBareValue c hc)) rest

theorem member (h : ReadsNested fuel) {key : List Piece} {d : Document}
    (read : MemberReading fuel s key d rest) : Passes s rest := by
  obtain ⟨quote, text, colon, value⟩ := read
  have name := passes_skipSpace s
  rw [quote] at name
  have between := (passes_quoted? text).trans (passes_skipSpace _)
  rw [colon] at between
  exact name.trans (between.trans (.inert rfl (h.value value)))

end ReadsNested

theorem readsNested (fuel : Nat) : ReadsNested fuel := by
  induction fuel using Nat.strongRecOn with
  | ind fuel ih =>
    refine ⟨?value, ?items, ?members⟩
    case value =>
      intro s rest d h
      cases fuel with
      | zero => cases h
      | succ f => exact (passes_skipSpace s).trans ((ih f (by omega)).reading (value?_eq_some h))
    case items =>
      intro s rest ds h
      obtain ⟨f, rfl, read⟩ := items?_eq_some h
      have nested := ih f (by omega)
      cases read with
      | @last t rest d value bracket =>
        exact (nested.value value).trans (bracket ▸ passes_skipSpace t)
      | @next t u rest d ds value comma more =>
        have next := comma ▸ passes_skipSpace t
        exact (nested.value value).trans (next.trans (.inert rfl (nested.items more)))
    case members =>
      intro s rest ms h
      obtain ⟨f, rfl, read⟩ := members?_eq_some h
      have nested := ih f (by omega)
      cases read with
      | @last t rest key d member brace =>
        exact (nested.member member).trans (brace ▸ passes_skipSpace t)
      | @next t u rest key d ms member comma more =>
        have next := comma ▸ passes_skipSpace t
        exact (nested.member member).trans (next.trans (.inert rfl (nested.members more)))

end Json.Document

namespace Tag

open Segment (IsPaired)

theorem exists_rest_of_relaxed {s : List Char} {t : Tag} (h : relaxed s = .ok t) :
    ∃ c, relaxedValue (2 * s.length + 2) ⟨s, 0⟩ = .ok (t, c) ∧ IsPadding c.rest := by
  rw [relaxed] at h
  split at h
  · cases h
  · rename_i t' c value
    dsimp only at h
    split at h
    · rename_i blank
      cases h
      exact ⟨c, value, List.dropWhile_eq_nil_iff.mp (List.isEmpty_iff.mp blank)⟩
    · cases h

theorem exists_paired_of_read {s : List Char} {tags : Tags}
    (h : Tags.read (String.ofList ('\x7b' :: s)) = .ok tags)
    (texts : ∀ t ∈ quotedTexts s, IsPaired t) :
    ∃ w pad, s = w ++ '\x7d' :: pad ∧ IsPaired w ∧ IsPadding pad := by
  obtain ⟨rest, pass, pad⟩ : ∃ rest, Passes s ('\x7d' :: rest) ∧ IsPadding rest := by
    rw [Tags.read, String.toList_ofList, ofText] at h
    cases strict : ofJson? ('\x7b' :: s) with
    | some t =>
      obtain ⟨f, d, rest, reading, pad, -⟩ := reading_of_ofJson? (stops_cons rfl s) strict
      exact ⟨rest, (Json.Document.readsNested f).braces reading, pad⟩
    | none =>
      rw [strict] at h
      cases people : relaxed ('\x7b' :: s) with
      | error e =>
        rw [people] at h
        cases h
      | ok t =>
        obtain ⟨c, value, pad⟩ := exists_rest_of_relaxed people
        exact ⟨c.rest, (readsNested _).braces rfl value, pad⟩
  obtain ⟨w, ts, rfl, same, paired⟩ := pass.exists_append
  refine ⟨w, rest, rfl, paired fun t ht => texts t ?_, pad⟩
  rw [same]
  exact List.mem_append_left _ ht

end Tag

end ItemLexicon
