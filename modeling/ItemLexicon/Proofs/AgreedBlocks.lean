import ItemLexicon.Proofs.NumberReadings

/-! Blocks on which strict JSON has no other say: where it agrees on each key and each value without
parts, it agrees on the whole. -/

namespace ItemLexicon.Json.Document

open Tag (Stops stops_cons IsPadding isBlank_of_isBareValue isBareValue_of_isBlank)

/-- The ways in which a value is read after the white space before it. -/
inductive Reading (fuel : Nat) : List Char → Document → List Char → Prop
  | null {rest : List Char} : Reading fuel ('n' :: 'u' :: 'l' :: 'l' :: rest) .null rest
  | trueWord {rest : List Char} : Reading fuel ('t' :: 'r' :: 'u' :: 'e' :: rest) (.bool true) rest
  | falseWord {rest : List Char} :
      Reading fuel ('f' :: 'a' :: 'l' :: 's' :: 'e' :: rest) (.bool false) rest
  | text {s rest : List Char} {ps : List Piece} (h : quoted? s = some (ps, rest)) :
      Reading fuel ('"' :: s) (.text ps) rest
  | brackets {s rest : List Char} (h : skipSpace s = ']' :: rest) :
      Reading fuel ('[' :: s) (.array []) rest
  | array {s rest : List Char} {items : List Document}
      (h : items? fuel (skipSpace s) = some (items, rest)) :
      Reading fuel ('[' :: s) (.array items) rest
  | braces {s rest : List Char} (h : skipSpace s = '\x7d' :: rest) :
      Reading fuel ('\x7b' :: s) (.object []) rest
  | object {s rest : List Char} {members : List (List Piece × Document)}
      (h : members? fuel (skipSpace s) = some (members, rest)) :
      Reading fuel ('\x7b' :: s) (.object members) rest
  | number {n : NumberText} {w : List Char} (h : Spells n w) {rest : List Char} :
      Reading fuel (n.signed w ++ rest) (.number n) rest

inductive ItemsReading (fuel : Nat) (s : List Char) : List Document → List Char → Prop
  | last {t rest : List Char} {d : Document} (value : value? fuel s = some (d, t))
      (bracket : skipSpace t = ']' :: rest) : ItemsReading fuel s [d] rest
  | next {t u rest : List Char} {d : Document} {ds : List Document}
      (value : value? fuel s = some (d, t)) (comma : skipSpace t = ',' :: u)
      (more : items? fuel u = some (ds, rest)) : ItemsReading fuel s (d :: ds) rest

inductive MemberReading (fuel : Nat) (s : List Char) (key : List Piece) (d : Document)
    (rest : List Char) : Prop
  | intro {k t v : List Char} (quote : skipSpace s = '"' :: k) (text : quoted? k = some (key, t))
      (colon : skipSpace t = ':' :: v) (value : value? fuel v = some (d, rest))

inductive MembersReading (fuel : Nat) (s : List Char) :
    List (List Piece × Document) → List Char → Prop
  | last {t rest : List Char} {key : List Piece} {d : Document}
      (member : MemberReading fuel s key d t) (brace : skipSpace t = '\x7d' :: rest) :
      MembersReading fuel s [(key, d)] rest
  | next {t u rest : List Char} {key : List Piece} {d : Document}
      {ms : List (List Piece × Document)} (member : MemberReading fuel s key d t)
      (comma : skipSpace t = ',' :: u) (more : members? fuel u = some (ms, rest)) :
      MembersReading fuel s ((key, d) :: ms) rest

inductive TextReading : List Char → List Piece → List Char → Prop
  | quote {s : List Char} : TextReading ('"' :: s) [] s
  | unit {a b c d : Char} {n : Nat} {s rest : List Char} {ps : List Piece}
      (h : hexUnit? a b c d = some n) (more : TextReading s ps rest) :
      TextReading ('\\' :: 'u' :: a :: b :: c :: d :: s) (.unit n :: ps) rest
  | escaped {e c : Char} {s rest : List Char} {ps : List Piece} (h : escaped? e = some c)
      (more : TextReading s ps rest) : TextReading ('\\' :: e :: s) (.char c :: ps) rest
  | char {c : Char} {s rest : List Char} {ps : List Piece} (visible : 0x20 ≤ c.toNat)
      (hb : c ≠ '\\') (hq : c ≠ '"') (more : TextReading s ps rest) :
      TextReading (c :: s) (.char c :: ps) rest

theorem quoted?_eq_some_iff {s rest : List Char} {ps : List Piece} :
    quoted? s = some (ps, rest) ↔ TextReading s ps rest := by
  constructor
  · intro h
    fun_induction quoted? s generalizing ps rest with
    | case1 => cases h
    | case2 s =>
      cases h
      exact .quote
    | case3 a b c d s n ps' rest' more unit ih =>
      cases h
      exact .unit unit (ih more)
    | case4 => cases h
    | case5 e s _ c ps' rest' more escaped ih =>
      cases h
      exact .escaped escaped (ih more)
    | case6 => cases h
    | case7 => cases h
    | case8 c s hq _ _ plain ps' rest' more ih =>
      cases h
      rw [Bool.or_eq_true, decide_eq_true_eq, beq_iff_eq, not_or] at plain
      exact .char (Nat.not_lt.mp plain.1) plain.2 hq (ih more)
    | case9 => cases h
  · intro h
    induction h with
    | quote => rw [quoted?]
    | unit h more ih => rw [quoted?, h, ih]
    | @escaped e c s rest ps h more ih =>
      have unit : e ≠ 'u' := by
        rintro rfl
        cases h
      rw [quoted?, h, ih]
      exact fun _ _ _ _ _ same _ => unit same
    | @char c s rest ps visible hb hq more ih =>
      have plain : ¬(decide (c.toNat < 0x20) || c == '\\') = true := by
        rw [Bool.or_eq_true, decide_eq_true_eq, beq_iff_eq, not_or]
        exact ⟨Nat.not_lt.mpr visible, hb⟩
      rw [quoted?, if_neg plain, ih]
      · exact hq
      · exact fun _ _ _ _ _ same _ => hb same
      · exact fun _ _ same _ => hb same

theorem value?_eq_some {fuel : Nat} {s rest : List Char} {d : Document}
    (h : value? (fuel + 1) s = some (d, rest)) : Reading fuel (skipSpace s) d rest := by
  rw [value?] at h
  split at h
  · rename_i same
    cases h
    rw [same]
    exact .null
  · rename_i same
    cases h
    rw [same]
    exact .trueWord
  · rename_i same
    cases h
    rw [same]
    exact .falseWord
  · rename_i same
    obtain ⟨p, hp, hd⟩ := Option.map_eq_some_iff.mp h
    cases hd
    rw [same]
    exact .text hp
  · rename_i same
    rw [same]
    split at h
    · rename_i closed
      cases h
      exact .brackets closed
    · obtain ⟨p, hp, hd⟩ := Option.map_eq_some_iff.mp h
      cases hd
      exact .array hp
  · rename_i same
    rw [same]
    split at h
    · rename_i closed
      cases h
      exact .braces closed
    · obtain ⟨p, hp, hd⟩ := Option.map_eq_some_iff.mp h
      cases hd
      exact .object hp
  · rename_i same
    obtain ⟨n, w, rfl, negative, spelled, rfl⟩ := number?_eq_some h
    rw [same]
    have signed : '-' :: (w ++ rest) = n.signed w ++ rest := by
      rw [NumberText.signed, negative]
      rfl
    rw [signed]
    exact .number spelled
  · obtain ⟨n, w, rfl, positive, spelled, same⟩ := number?_eq_some h
    have signed : w = n.signed w := by
      rw [NumberText.signed, positive]
      rfl
    rw [same, signed]
    exact .number spelled

theorem items?_eq_some {fuel : Nat} {s rest : List Char} {ds : List Document}
    (h : items? fuel s = some (ds, rest)) : ∃ f, fuel = f + 1 ∧ ItemsReading f s ds rest := by
  cases fuel with
  | zero => cases h
  | succ f =>
    refine ⟨f, rfl, ?_⟩
    rw [items?] at h
    split at h
    · cases h
    · rename_i value
      split at h
      · rename_i comma
        obtain ⟨p, more, hd⟩ := Option.map_eq_some_iff.mp h
        cases hd
        exact .next value comma more
      · rename_i bracket
        cases h
        exact .last value bracket
      · cases h

theorem members?_eq_some {fuel : Nat} {s rest : List Char} {ms : List (List Piece × Document)}
    (h : members? fuel s = some (ms, rest)) : ∃ f, fuel = f + 1 ∧ MembersReading f s ms rest := by
  cases fuel with
  | zero => cases h
  | succ f =>
    refine ⟨f, rfl, ?_⟩
    rw [members?] at h
    split at h
    · rename_i quote
      split at h
      · cases h
      · rename_i key
        split at h
        · rename_i colon
          split at h
          · cases h
          · rename_i value
            have member := MemberReading.intro quote key colon value
            split at h
            · rename_i comma
              obtain ⟨p, more, hd⟩ := Option.map_eq_some_iff.mp h
              cases hd
              exact .next member comma more
            · rename_i brace
              cases h
              exact .last member brace
            · cases h
        · cases h
    · cases h

theorem Reading.exists_cons {fuel : Nat} {s rest : List Char} {d : Document}
    (h : Reading fuel s d rest) : ∃ c t, s = c :: t ∧ Text.isBlank c = false := by
  cases h with
  | @number n w h =>
    obtain ⟨c, t, same⟩ := List.exists_cons_of_ne_nil h.signed_ne_nil
    have bare := h.isBareValue
    rw [same] at bare ⊢
    exact ⟨c, _, rfl, isBlank_of_isBareValue (bare c List.mem_cons_self)⟩
  | _ => exact ⟨_, _, rfl, rfl⟩

theorem isBlank_of_isSpace {c : Char} (h : isSpace c = true) : Text.isBlank c = true := by
  simp only [isSpace, Bool.or_eq_true, beq_iff_eq] at h
  rcases h with ((rfl | rfl) | rfl) | rfl <;> rfl

theorem skipSpace_append {pad s : List Char} (hpad : IsPadding pad)
    (solid : Stops Text.isBlank s) : ∃ pad', IsPadding pad' ∧ skipSpace (pad ++ s) = pad' ++ s := by
  induction pad with
  | nil =>
    refine ⟨[], List.forall_mem_nil _, ?_⟩
    cases s with
    | nil => rfl
    | cons c s =>
      refine List.dropWhile_cons_of_neg fun space => ?_
      have blank := solid c rfl
      rw [isBlank_of_isSpace space] at blank
      cases blank
  | cons c pad ih =>
    obtain ⟨blank, rest⟩ := List.forall_mem_cons.mp hpad
    by_cases space : isSpace c = true
    · obtain ⟨pad', hpad', same⟩ := ih rest
      exact ⟨pad', hpad', (List.dropWhile_cons_of_pos space).trans same⟩
    · exact ⟨c :: pad, hpad, List.dropWhile_cons_of_neg space⟩

theorem isPadding_of_skipSpace {s : List Char} (h : (skipSpace s).isEmpty = true) :
    IsPadding s := by
  induction s with
  | nil => exact List.forall_mem_nil _
  | cons c s ih =>
    by_cases space : isSpace c = true
    · rw [skipSpace, List.dropWhile_cons_of_pos space] at h
      exact List.forall_mem_cons.mpr ⟨isBlank_of_isSpace space, ih h⟩
    · rw [skipSpace, List.dropWhile_cons_of_neg space] at h
      cases h

theorem eq_of_skipSpace_append {pad s t : List Char} {c : Char} (hpad : IsPadding pad)
    (solid : Stops Text.isBlank s) (h : skipSpace (pad ++ s) = c :: t)
    (hc : Text.isBlank c = false) : s = c :: t := by
  obtain ⟨pad', hpad', same⟩ := skipSpace_append hpad solid
  rw [h] at same
  cases pad' with
  | nil => exact same.symm
  | cons d pad' =>
    obtain ⟨rfl, -⟩ := List.cons.inj same
    rw [hpad' c List.mem_cons_self] at hc
    cases hc

theorem stops_of_skipSpace {p : Char → Bool} {s t : List Char} {c : Char}
    (h : skipSpace s = c :: t) (hc : p c = false) (hp : ∀ c, Text.isBlank c = true → p c = false) :
    Stops p s := by
  cases s with
  | nil => cases h
  | cons d s =>
    by_cases space : isSpace d = true
    · exact stops_cons (hp d (isBlank_of_isSpace space)) _
    · rw [skipSpace, List.dropWhile_cons_of_neg space] at h
      obtain ⟨rfl, -⟩ := List.cons.inj h
      exact stops_cons hc _

theorem reading_of_value? {fuel : Nat} {pad s rest : List Char} {d : Document}
    (hpad : IsPadding pad) (solid : Stops Text.isBlank s)
    (h : value? fuel (pad ++ s) = some (d, rest)) : ∃ f, fuel = f + 1 ∧ Reading f s d rest := by
  cases fuel with
  | zero =>
    rw [value?] at h
    cases h
  | succ f =>
    have reading := value?_eq_some h
    obtain ⟨c, t, same, hc⟩ := reading.exists_cons
    rw [eq_of_skipSpace_append hpad solid same hc]
    rw [same] at reading
    exact ⟨f, rfl, reading⟩

theorem plain_of_hexUnit? {a b c d : Char} {n : Nat} (h : hexUnit? a b c d = some n) :
    ∀ e ∈ [a, b, c, d], e ≠ '"' ∧ e ≠ '\\' := by
  have digit {e : Char} {k : Nat} (h : hexDigit? e = some k) : e ≠ '"' ∧ e ≠ '\\' := by
    constructor <;> rintro rfl <;> cases h
  rw [hexUnit?] at h
  split at h
  · rename_i ha hb hc hd
    simpa using ⟨digit ha, digit hb, digit hc, digit hd⟩
  · cases h

theorem exists_of_quotes_cons {k v s rest : List Char} {c : Char} (h : Tag.Quotes '"' k v)
    (same : v ++ '"' :: rest = c :: s) (plain : c ≠ '"' ∧ c ≠ '\\') :
    ∃ k' v', v = c :: v' ∧ Tag.Quotes '"' k' v' ∧ v' ++ '"' :: rest = s := by
  cases h with
  | nil =>
    obtain ⟨rfl, -⟩ := List.cons.inj same
    exact absurd rfl plain.1
  | char hq hb h =>
    obtain ⟨rfl, rest⟩ := List.cons.inj same
    exact ⟨_, _, rfl, h, rest⟩
  | escaped c h =>
    obtain ⟨rfl, -⟩ := List.cons.inj same
    exact absurd rfl plain.2

theorem TextReading.of_quotes {s rest rest' : List Char} {ps : List Piece}
    (h : TextReading s ps rest') {k v : List Char} (hv : Tag.Quotes '"' k v)
    (same : v ++ '"' :: rest = s) :
    rest' = rest ∧ ∀ after, TextReading (v ++ '"' :: after) ps after := by
  induction h generalizing k v with
  | quote =>
    cases hv with
    | nil =>
      obtain ⟨-, rfl⟩ := List.cons.inj same
      exact ⟨rfl, fun _ => .quote⟩
    | char hq =>
      exact absurd (List.cons.inj same).1 hq
    | escaped => cases (List.cons.inj same).1
  | @unit a b c d n s rest' ps h more ih =>
    cases hv with
    | nil => cases (List.cons.inj same).1
    | char hq hb => exact absurd (List.cons.inj same).1 hb
    | escaped e hv =>
      obtain ⟨rfl, tail⟩ := List.cons.inj (List.cons.inj same).2
      have plain := plain_of_hexUnit? h
      simp only [List.mem_cons, List.not_mem_nil, or_false, forall_eq_or_imp, forall_eq] at plain
      obtain ⟨ha, hb, hc, hd⟩ := plain
      obtain ⟨_, v, rfl, hv, tail⟩ := exists_of_quotes_cons hv tail ha
      obtain ⟨_, v, rfl, hv, tail⟩ := exists_of_quotes_cons hv tail hb
      obtain ⟨_, v, rfl, hv, tail⟩ := exists_of_quotes_cons hv tail hc
      obtain ⟨_, v, rfl, hv, tail⟩ := exists_of_quotes_cons hv tail hd
      obtain ⟨rfl, more⟩ := ih hv tail
      exact ⟨rfl, fun after => .unit h (more after)⟩
  | escaped h more ih =>
    cases hv with
    | nil => cases (List.cons.inj same).1
    | char hq hb => exact absurd (List.cons.inj same).1 hb
    | escaped e hv =>
      obtain ⟨rfl, tail⟩ := List.cons.inj (List.cons.inj same).2
      obtain ⟨rfl, more⟩ := ih hv tail
      exact ⟨rfl, fun after => .escaped h (more after)⟩
  | char visible hb hq more ih =>
    obtain ⟨_, v, rfl, hv, same⟩ := exists_of_quotes_cons hv same ⟨hq, hb⟩
    obtain ⟨rfl, more⟩ := ih hv same
    exact ⟨rfl, fun after => .char visible hb hq (more after)⟩

theorem value?_quoted {fuel : Nat} {s rest : List Char} {ps : List Piece}
    (h : TextReading s ps rest) : value? (fuel + 1) ('"' :: s) = some (.text ps, rest) := by
  have solid : skipSpace ('"' :: s) = '"' :: s := List.dropWhile_cons_of_neg (by decide)
  rw [value?, solid]
  change (quoted? s).map _ = _
  rw [quoted?_eq_some_iff.mpr h]
  rfl

theorem value?_number_append {fuel : Nat} {n : NumberText} {w rest : List Char} (h : Spells n w)
    (stop : Stops Tag.Cursor.isBareValue rest) :
    value? (fuel + 1) (n.signed w ++ rest) = some (.number n, rest) := by
  have number := number?_append h stop
  obtain ⟨c, s, rfl, digit⟩ := h.exists_cons
  rw [NumberText.signed]
  split
  · rename_i negative
    rw [negative] at number
    have solid : skipSpace ('-' :: c :: s ++ rest) = '-' :: c :: s ++ rest :=
      List.dropWhile_cons_of_neg (by decide)
    rw [value?, solid]
    exact number
  · rename_i positive
    rw [Bool.eq_false_iff.mpr positive] at number
    have solid : skipSpace (c :: s ++ rest) = c :: s ++ rest := by
      refine List.dropWhile_cons_of_neg fun space => ?_
      have blank := isBlank_of_isBareValue (isBareValue_of_isDigit digit)
      rw [isBlank_of_isSpace space] at blank
      cases blank
    rw [value?, solid]
    split
    case h_8 => exact number
    all_goals
      rename_i same
      obtain ⟨rfl, -⟩ := List.cons.inj same
      cases digit

theorem value?_number {fuel : Nat} {n : NumberText} {w : List Char} (h : Spells n w) :
    value? (fuel + 1) (n.signed w) = some (.number n, []) := by
  rw [← List.append_nil (n.signed w)]
  exact value?_number_append h (Tag.stops_nil _)

theorem read?_of_value? {w : List Char} {d : Document}
    (h : ∀ fuel, value? (fuel + 1) w = some (d, [])) : read? w = some d := by
  rw [read?, h]
  rfl

end ItemLexicon.Json.Document

namespace ItemLexicon.Tag

open Json (Document NumberText Spells Piece)
open Json.Document

inductive AgreedKey : List Char → List Char → Prop
  | bare {w : List Char} (ne : w ≠ []) (h : ∀ c ∈ w, Cursor.isBareKey c = true) : AgreedKey w w
  | quoted {q : Char} {s w : List Char} (hq : isQuote q = true) (ne : s ≠ []) (h : Quotes q s w)
      (strict : ∀ {k}, ofJson? (q :: w ++ [q]) = some (.text k) → k = String.ofList s) :
      AgreedKey s (q :: w ++ [q])

theorem AgreedKey.key {k w : List Char} (h : AgreedKey k w) : RelaxedKey k w := by
  cases h with
  | bare ne h => exact .bare ne h
  | quoted hq ne h => exact .quoted hq ne h

structure AgreedLeaf (t : Tag) (w : List Char) : Prop where
  leaf : RelaxedLeaf t w
  strict : ∀ {t'}, ofJson? w = some t' → t' = t

def Spelling.agreed : Spelling := ⟨AgreedKey, AgreedLeaf⟩

theorem Writes.relaxed_of_agreed {t : Tag} {w : List Char} (h : Writes .agreed t w) :
    Writes .relaxed t w := h.mono (fun _ _ => AgreedKey.key) fun _ _ => AgreedLeaf.leaf

/-- Where strict JSON takes the text as a value, it sees the same end and no other tag. -/
def IsAgreed (t : Tag) (w : List Char) : Prop :=
  ∀ {fuel : Nat} {pad rest rest' : List Char} {d : Document}, IsPadding pad →
    Stops Cursor.isBareValue rest → Stops Cursor.isBareValue rest' →
    value? fuel (pad ++ (w ++ rest)) = some (d, rest') →
    rest' = rest ∧ ∀ {depth t'}, ofDocument? depth d = some t' → t' = t

theorem eq_of_append_of_stops {p : Char → Bool} {v w s t : List Char}
    (hv : ∀ c ∈ v, p c = true) (hw : ∀ c ∈ w, p c = true) (hs : Stops p s) (ht : Stops p t)
    (h : v ++ s = w ++ t) : v = w ∧ s = t := by
  have front := congrArg (List.takeWhile p) h
  have back := congrArg (List.dropWhile p) h
  rw [takeWhile_append_of_stops hv hs, takeWhile_append_of_stops hw ht] at front
  rw [dropWhile_append_of_stops hv hs, dropWhile_append_of_stops hw ht] at back
  exact ⟨front, back⟩

theorem ofJson?_eq {w : List Char} {d : Document}
    (h : ∀ fuel, value? (fuel + 1) w = some (d, [])) : ofJson? w = ofDocument? maxDepth d := by
  rw [ofJson?, read?_of_value? h]
  rfl

theorem exists_of_ofJson? {s : List Char} {t : Tag} (h : ofJson? s = some t) :
    ∃ d rest, value? (2 * s.length + 2) s = some (d, rest) ∧ IsPadding rest ∧
      ofDocument? maxDepth d = some t := by
  obtain ⟨d, read, ht⟩ := Option.bind_eq_some_iff.mp h
  rw [read?] at read
  split at read
  · rename_i rest value
    split at read
    · rename_i atEnd
      cases read
      exact ⟨_, rest, value, isPadding_of_skipSpace atEnd, ht⟩
    · cases read
  · cases read

theorem reading_of_ofJson? {s : List Char} {t : Tag} (solid : Stops Text.isBlank s)
    (h : ofJson? s = some t) :
    ∃ f d rest, Reading f s d rest ∧ IsPadding rest ∧ ofDocument? maxDepth d = some t := by
  obtain ⟨d, rest, value, hrest, ht⟩ := exists_of_ofJson? h
  rw [← List.nil_append s] at value
  obtain ⟨f, -, reading⟩ := reading_of_value? (List.forall_mem_nil _) solid value
  exact ⟨f, d, rest, reading, hrest, ht⟩

theorem agreedLeaf_of_value? {t : Tag} {w : List Char} {d : Document} (leaf : RelaxedLeaf t w)
    (value : ∀ fuel, value? (fuel + 1) w = some (d, [])) (ht : ofDocument? maxDepth d = some t) :
    AgreedLeaf t w := by
  refine ⟨leaf, fun {t'} strict => ?_⟩
  rw [ofJson?_eq value, ht] at strict
  exact (Option.some.inj strict).symm

theorem agreedLeaf_of_bare {t : Tag} {w : List Char} {d : Document} (same : ofBare w = t)
    (ne : w ≠ []) (bare : w.all Cursor.isBareValue = true)
    (value : ∀ fuel, value? (fuel + 1) w = some (d, [])) (ht : ofDocument? maxDepth d = some t) :
    AgreedLeaf t w :=
  agreedLeaf_of_value? (.of_ofBare same ne (List.all_eq_true.mp bare)) value ht

theorem isAgreed_of_bare {t : Tag} {w : List Char} (ne : w ≠ [])
    (bare : ∀ c ∈ w, Cursor.isBareValue c = true)
    (strict : ∀ {t'}, ofJson? w = some t' → t' = t) : IsAgreed t w := by
  intro fuel pad rest rest' d hpad stop stop' h
  obtain ⟨c, v, rfl⟩ := List.exists_cons_of_ne_nil ne
  have first := bare c List.mem_cons_self
  have solid : Stops Text.isBlank (c :: v ++ rest) :=
    stops_cons (isBlank_of_isBareValue first) _
  obtain ⟨fuel, rfl, reading⟩ := reading_of_value? hpad solid h
  generalize same : c :: v ++ rest = s at reading
  have word {u : List Char} (hu : u.all Cursor.isBareValue = true)
      (value : ∀ fuel, value? (fuel + 1) u = some (d, []))
      (flat : ∀ depth, ofDocument? depth d = ofDocument? maxDepth d)
      (same : c :: v ++ rest = u ++ rest') :
      rest' = rest ∧ ∀ {depth t'}, ofDocument? depth d = some t' → t' = t := by
    obtain ⟨rfl, rfl⟩ := eq_of_append_of_stops bare (List.all_eq_true.mp hu) stop stop' same
    refine ⟨rfl, fun {depth t'} ht => strict ?_⟩
    rw [ofJson?_eq value, ← flat depth, ht]
  have open' {q : Char} {s : List Char} (same : c :: v ++ rest = q :: s) :
      Cursor.isBareValue q = true := by
    obtain ⟨rfl, -⟩ := List.cons.inj same
    exact first
  cases reading with
  | null => exact word (u := ['n', 'u', 'l', 'l']) rfl (fun _ => rfl) (fun _ => rfl) same
  | trueWord => exact word (u := ['t', 'r', 'u', 'e']) rfl (fun _ => rfl) (fun _ => rfl) same
  | falseWord =>
    exact word (u := ['f', 'a', 'l', 's', 'e']) rfl (fun _ => rfl) (fun _ => rfl) same
  | text => cases open' same
  | brackets => cases open' same
  | array => cases open' same
  | braces => cases open' same
  | object => cases open' same
  | number spelled =>
    exact word (List.all_eq_true.mpr spelled.isBareValue) (fun _ => value?_number spelled)
      (fun _ => rfl) same

theorem isAgreed_of_quotes {q : Char} {s w : List Char} (hq : isQuote q = true) (h : Quotes q s w)
    (strict : ∀ {t'}, ofJson? (q :: w ++ [q]) = some t' → t' = .text (String.ofList s)) :
    IsAgreed (.text (String.ofList s)) (q :: w ++ [q]) := by
  intro fuel pad rest rest' d hpad stop stop' value
  have layout : q :: w ++ [q] ++ rest = q :: (w ++ q :: rest) := by
    simp only [List.cons_append, List.append_assoc, List.nil_append]
  rw [layout] at value
  obtain ⟨fuel, rfl, reading⟩ :=
    reading_of_value? hpad (stops_cons (isBlank_of_isQuote hq) _) value
  generalize same : q :: (w ++ q :: rest) = u at reading
  rcases isQuote_cases hq with rfl | rfl
  · cases reading with
    | text text =>
      obtain ⟨rfl, whole⟩ := (quoted?_eq_some_iff.mp text).of_quotes h (List.cons.inj same).2
      refine ⟨rfl, fun {depth t'} ht => strict ?_⟩
      rw [List.cons_append, ofJson?_eq fun fuel => value?_quoted (whole [])]
      exact ht
    | number spelled => exact absurd same.symm (spelled.signed_append_ne (by decide) _ _)
    | _ => cases (List.cons.inj same).1
  · cases reading with
    | number spelled => exact absurd same.symm (spelled.signed_append_ne (by decide) _ _)
    | _ => cases (List.cons.inj same).1

theorem AgreedLeaf.isAgreed {t : Tag} {w : List Char} (h : AgreedLeaf t w) : IsAgreed t w := by
  obtain ⟨leaf, strict⟩ := h
  cases leaf with
  | bare ne bare => exact isAgreed_of_bare ne bare strict
  | quoted hq quotes => exact isAgreed_of_quotes hq quotes strict

theorem of_isAgreed {s : Slot} (h : IsAgreed s.tag s.text) (pads : s.IsPadded) {pad : List Char}
    (hpad : IsPadding pad) {c c' : Char} (hc : IsMark c) (hc' : IsMark c') {fuel : Nat}
    {tail rest u : List Char} {d : Document}
    (value : value? fuel (pad ++ s.onward (c :: tail)) = some (d, rest))
    (next : skipSpace rest = c' :: u) :
    (c = c' ∧ tail = u) ∧ ∀ {depth t'}, ofDocument? depth d = some t' → t' = s.tag := by
  have stop : Stops Cursor.isBareValue (s.after ++ c :: tail) :=
    pads.after.stops_append (fun _ => isBareValue_of_isBlank) (stops_cons hc.outside _)
  have stop' : Stops Cursor.isBareValue rest :=
    stops_of_skipSpace next hc'.outside fun _ => isBareValue_of_isBlank
  obtain ⟨rfl, same⟩ := h hpad stop stop' value
  exact ⟨List.cons.inj (eq_of_skipSpace_append pads.after (stops_cons hc.solid _) next hc'.solid),
    same⟩

theorem exists_of_ofDocument?_array {depth : Nat} {ds : List Document} {t : Tag}
    (h : ofDocument? depth (.array ds) = some t) :
    ∃ inner ts, itemsOfDocuments? inner ds = some ts ∧ t = .list ts := by
  cases depth with
  | zero => cases h
  | succ inner =>
    obtain ⟨ts, hts, rfl⟩ := Option.map_eq_some_iff.mp h
    exact ⟨inner, ts, hts, rfl⟩

theorem exists_of_ofDocument?_object {depth : Nat} {ms : List (List Piece × Document)} {t : Tag}
    (h : ofDocument? depth (.object ms) = some t) :
    ∃ inner es, entriesOfMembers? inner ms = some es ∧ t = .compound (Dictionary.ofList es) := by
  cases depth with
  | zero => cases h
  | succ inner =>
    obtain ⟨es, hes, rfl⟩ := Option.map_eq_some_iff.mp h
    exact ⟨inner, es, hes, rfl⟩

theorem itemsOfDocuments?_cons {depth : Nat} {d : Document} {ds : List Document} {ts : List Tag}
    (h : itemsOfDocuments? depth (d :: ds) = some ts) : ∃ t ts', ofDocument? depth d = some t ∧
      itemsOfDocuments? depth ds = some ts' ∧ ts = t :: ts' := by
  rw [itemsOfDocuments?] at h
  split at h
  · rename_i first more
    cases h
    exact ⟨_, _, first, more, rfl⟩
  · cases h

theorem of_items? {s : Slot} {slots : List Slot} (padded : ∀ s' ∈ s :: slots, s'.IsPadded)
    (inside : ∀ s' ∈ s :: slots, IsAgreed s'.tag s'.text) {fuel : Nat} {pad rest rest' : List Char}
    {ds : List Document} (hpad : IsPadding pad)
    (h : items? fuel (pad ++ s.onward (follow (slots.map Slot.written) (']' :: rest))) =
      some (ds, rest')) :
    rest' = rest ∧
      ∀ {depth ts}, itemsOfDocuments? depth ds = some ts → ts = (s :: slots).map Slot.tag := by
  induction slots generalizing s pad fuel ds with
  | nil =>
    obtain ⟨pads, -⟩ := List.forall_mem_cons.mp padded
    obtain ⟨first, -⟩ := List.forall_mem_cons.mp inside
    obtain ⟨f, rfl, reading⟩ := items?_eq_some h
    cases reading with
    | last value bracket =>
      obtain ⟨⟨-, rfl⟩, same⟩ :=
        of_isAgreed first pads hpad isMark_bracket isMark_bracket value bracket
      refine ⟨rfl, fun {depth ts} hts => ?_⟩
      obtain ⟨t, none, ht, hnone, rfl⟩ := itemsOfDocuments?_cons hts
      cases hnone
      rw [same ht]
      rfl
    | next value comma =>
      obtain ⟨⟨differ, -⟩, -⟩ := of_isAgreed first pads hpad isMark_bracket isMark_comma value comma
      cases differ
  | cons s' slots ih =>
    obtain ⟨pads, padded⟩ := List.forall_mem_cons.mp padded
    obtain ⟨first, inside⟩ := List.forall_mem_cons.mp inside
    rw [List.map_cons, follow_cons, s'.written_append] at h
    obtain ⟨f, rfl, reading⟩ := items?_eq_some h
    cases reading with
    | last value bracket =>
      obtain ⟨⟨differ, -⟩, -⟩ :=
        of_isAgreed first pads hpad isMark_comma isMark_bracket value bracket
      cases differ
    | next value comma more =>
      obtain ⟨⟨-, rfl⟩, same⟩ := of_isAgreed first pads hpad isMark_comma isMark_comma value comma
      -- Both readers have come to the same comma, and a shorter list follows.
      obtain ⟨rfl, others⟩ := ih padded inside (padded s' List.mem_cons_self).before more
      refine ⟨rfl, fun {depth ts} hts => ?_⟩
      obtain ⟨t, us, ht, hus, rfl⟩ := itemsOfDocuments?_cons hts
      rw [same ht, others hus]
      rfl

theorem items?_ne_some {fuel : Nat} {pad s rest : List Char} {c : Char} {ds : List Document}
    (hpad : IsPadding pad) (solid : Text.isBlank c = false)
    (unread : ∀ {f d t}, ¬Reading f (c :: s) d t) :
    items? fuel (pad ++ c :: s) ≠ some (ds, rest) := by
  intro h
  have empty {f : Nat} {d : Document} {t : List Char} : value? f (pad ++ c :: s) ≠ some (d, t) := by
    intro value
    obtain ⟨f, -, reading⟩ := reading_of_value? hpad (stops_cons solid _) value
    exact unread reading
  obtain ⟨f, -, reading⟩ := items?_eq_some h
  cases reading with
  | last value => exact empty value
  | next value => exact empty value

theorem not_reading {f : Nat} {c : Char} {s rest : List Char} {d : Document}
    (hc : c = ']' ∨ IsTypeMark c) : ¬Reading f (c :: s) d rest := by
  intro reading
  generalize same : c :: s = u at reading
  cases reading with
  | number spelled =>
    refine absurd same.symm (spelled.signed_append_ne ?_ _ _)
    rcases hc with rfl | rfl | rfl | rfl <;> decide
  | _ =>
    obtain ⟨rfl, -⟩ := List.cons.inj same
    rcases hc with h | h | h | h <;> cases h

theorem isAgreed_listText {pad : List Char} {slots : List Slot} (hpad : IsPadding pad)
    (padded : ∀ s ∈ slots, s.IsPadded) (starts : ∀ s ∈ slots, Writes .relaxed s.tag s.text)
    (inside : ∀ s ∈ slots, IsAgreed s.tag s.text) :
    IsAgreed (.list (slots.map Slot.tag)) (listText pad slots) := by
  intro fuel before rest rest' d hbefore stop stop' value
  rw [listText_append] at value
  obtain ⟨fuel, rfl, reading⟩ := reading_of_value? hbefore (stops_cons rfl _) value
  generalize same : '[' :: (pad ++ (Text.join [','] (slots.map Slot.written) ++ ']' :: rest)) = u
    at reading
  cases reading with
  | brackets closed =>
    obtain ⟨-, rfl⟩ := List.cons.inj same
    cases slots with
    | nil =>
      obtain ⟨-, rfl⟩ := List.cons.inj
        (eq_of_skipSpace_append hpad (stops_cons rfl _) closed rfl)
      refine ⟨rfl, fun {depth t'} ht => ?_⟩
      obtain ⟨_, ts, hts, rfl⟩ := exists_of_ofDocument?_array ht
      cases hts
      rfl
    | cons s slots =>
      obtain ⟨pads, -⟩ := List.forall_mem_cons.mp padded
      obtain ⟨start, -⟩ := List.forall_mem_cons.mp starts
      rw [List.map_cons, join_cons_append, s.written_append, ← List.append_assoc] at closed
      -- White space of blocks that strict JSON does not pass over cannot come before its bracket.
      have first := eq_of_skipSpace_append (hpad.append pads.before) (start.stops _) closed rfl
      obtain ⟨c, w, hw, -, filled, -⟩ := start.head
      rw [hw] at first
      exact absurd (List.cons.inj first).1 filled
  | array items =>
    obtain ⟨-, rfl⟩ := List.cons.inj same
    cases slots with
    | nil =>
      have bracket : Stops Text.isBlank (']' :: rest) := stops_cons rfl _
      obtain ⟨pad', hpad', skip⟩ := skipSpace_append hpad bracket
      rw [List.map_nil, Text.join, List.nil_append, skip] at items
      exact absurd items (items?_ne_some hpad' rfl (not_reading (.inl rfl)))
    | cons s slots =>
      obtain ⟨pads, -⟩ := List.forall_mem_cons.mp padded
      obtain ⟨start, -⟩ := List.forall_mem_cons.mp starts
      rw [List.map_cons, join_cons_append, s.written_append, ← List.append_assoc] at items
      obtain ⟨pad', hpad', skip⟩ := skipSpace_append (hpad.append pads.before) (start.stops _)
      rw [Slot.onward, skip] at items
      obtain ⟨rfl, tags⟩ := of_items? padded inside hpad' items
      refine ⟨rfl, fun {depth t'} ht => ?_⟩
      obtain ⟨_, ts, hts, rfl⟩ := exists_of_ofDocument?_array ht
      rw [tags hts]
  | number spelled => exact absurd same.symm (spelled.signed_append_ne (by decide) _ _)
  | _ => cases (List.cons.inj same).1

theorem isAgreed_markedText {pad : List Char} {m : Char} {slots : List Slot} (hpad : IsPadding pad)
    (hm : IsTypeMark m) (tags : List Tag) : IsAgreed (.list tags) (markedText pad m slots) := by
  intro fuel before rest rest' d hbefore stop stop' value
  rw [markedText_append] at value
  obtain ⟨fuel, rfl, reading⟩ := reading_of_value? hbefore (stops_cons rfl _) value
  generalize same : '[' :: (pad ++ m :: ';' ::
    (Text.join [','] (slots.map Slot.written) ++ ']' :: rest)) = u at reading
  cases reading with
  | brackets closed =>
    obtain ⟨-, rfl⟩ := List.cons.inj same
    obtain ⟨rfl, -⟩ := List.cons.inj
      (eq_of_skipSpace_append hpad (stops_cons hm.solid _) closed rfl)
    rcases hm with h | h | h <;> cases h
  | array items =>
    obtain ⟨-, rfl⟩ := List.cons.inj same
    obtain ⟨pad', hpad', skip⟩ := skipSpace_append hpad (stops_cons hm.solid _)
    rw [skip] at items
    exact absurd items (items?_ne_some hpad' hm.solid (not_reading (.inr hm)))
  | number spelled => exact absurd same.symm (spelled.signed_append_ne (by decide) _ _)
  | _ => cases (List.cons.inj same).1

theorem entriesOfMembers?_cons {depth : Nat} {key : List Piece} {d : Document}
    {ms : List (List Piece × Document)} {es : List (String × Tag)}
    (h : entriesOfMembers? depth ((key, d) :: ms) = some es) : ∃ k t es',
      Piece.assemble? key = some k ∧ ofDocument? depth d = some t ∧
        entriesOfMembers? depth ms = some es' ∧ es = (String.ofList k, t) :: es' := by
  rw [entriesOfMembers?] at h
  split at h
  · rename_i name value more
    cases h
    exact ⟨_, _, _, name, value, more, rfl⟩
  · cases h

theorem of_memberReading {m : Member} (name : AgreedKey m.key m.text)
    (h : IsAgreed m.value.tag m.value.text) (pads : m.IsPadded) {pad : List Char}
    (hpad : IsPadding pad) {c c' : Char} (hc : IsMark c) (hc' : IsMark c') {fuel : Nat}
    {tail rest u : List Char} {key : List Piece} {d : Document}
    (member : MemberReading fuel (pad ++ m.onward (c :: tail)) key d rest)
    (next : skipSpace rest = c' :: u) :
    (c = c' ∧ tail = u) ∧
      (∀ {k}, Piece.assemble? key = some k → String.ofList k = String.ofList m.key) ∧
      ∀ {depth t'}, ofDocument? depth d = some t' → t' = m.value.tag := by
  cases member with
  | @intro k t v quote text colon value =>
    have quote := eq_of_skipSpace_append hpad (name.key.stops _) quote rfl
    generalize hw : m.text = w at name quote
    cases name with
    | bare ne bare =>
      obtain ⟨e, w, same⟩ := List.exists_cons_of_ne_nil ne
      rw [same] at bare quote
      obtain ⟨rfl, -⟩ := List.cons.inj quote
      cases bare '"' List.mem_cons_self
    | @quoted q _ w hq ne quotes strict =>
      rw [List.cons_append, List.cons_append, List.append_assoc] at quote
      obtain ⟨rfl, same⟩ := List.cons.inj quote
      obtain ⟨rfl, whole⟩ := (quoted?_eq_some_iff.mp text).of_quotes quotes same
      have colon := eq_of_skipSpace_append pads.after (stops_cons rfl _) colon rfl
      obtain ⟨-, rfl⟩ := List.cons.inj colon
      obtain ⟨rest, tags⟩ := of_isAgreed h pads.value pads.value.before hc hc' value next
      refine ⟨rest, fun {k} hk => strict ?_, tags⟩
      rw [List.cons_append, ofJson?_eq fun fuel => value?_quoted (whole []), ofDocument?, hk]
      rfl

theorem of_members? {m : Member} {members : List Member} (padded : ∀ m' ∈ m :: members, m'.IsPadded)
    (keys : ∀ m' ∈ m :: members, AgreedKey m'.key m'.text)
    (inside : ∀ m' ∈ m :: members, IsAgreed m'.value.tag m'.value.text) {fuel : Nat}
    {pad rest rest' : List Char} {ms : List (List Piece × Document)} (hpad : IsPadding pad)
    (h : members? fuel (pad ++ m.onward (follow (members.map Member.written) ('\x7d' :: rest))) =
      some (ms, rest')) :
    rest' = rest ∧
      ∀ {depth es}, entriesOfMembers? depth ms = some es →
        es = (m :: members).map Member.entry := by
  induction members generalizing m pad fuel ms with
  | nil =>
    obtain ⟨pads, -⟩ := List.forall_mem_cons.mp padded
    obtain ⟨name, -⟩ := List.forall_mem_cons.mp keys
    obtain ⟨first, -⟩ := List.forall_mem_cons.mp inside
    obtain ⟨f, rfl, reading⟩ := members?_eq_some h
    cases reading with
    | last member brace =>
      obtain ⟨⟨-, rfl⟩, sameKey, same⟩ :=
        of_memberReading name first pads hpad isMark_brace isMark_brace member brace
      refine ⟨rfl, fun {depth es} hes => ?_⟩
      obtain ⟨k, t, none, hk, ht, hnone, rfl⟩ := entriesOfMembers?_cons hes
      cases hnone
      rw [sameKey hk, same ht]
      rfl
    | next member comma =>
      obtain ⟨⟨differ, -⟩, -⟩ :=
        of_memberReading name first pads hpad isMark_brace isMark_comma member comma
      cases differ
  | cons m' members ih =>
    obtain ⟨pads, padded⟩ := List.forall_mem_cons.mp padded
    obtain ⟨name, keys⟩ := List.forall_mem_cons.mp keys
    obtain ⟨first, inside⟩ := List.forall_mem_cons.mp inside
    rw [List.map_cons, follow_cons, m'.written_append] at h
    obtain ⟨f, rfl, reading⟩ := members?_eq_some h
    cases reading with
    | last member brace =>
      obtain ⟨⟨differ, -⟩, -⟩ :=
        of_memberReading name first pads hpad isMark_comma isMark_brace member brace
      cases differ
    | next member comma more =>
      obtain ⟨⟨-, rfl⟩, sameKey, same⟩ :=
        of_memberReading name first pads hpad isMark_comma isMark_comma member comma
      obtain ⟨rfl, others⟩ := ih padded keys inside (padded m' List.mem_cons_self).before more
      refine ⟨rfl, fun {depth es} hes => ?_⟩
      obtain ⟨k, t, es', hk, ht, hes', rfl⟩ := entriesOfMembers?_cons hes
      rw [sameKey hk, same ht, others hes']
      rfl

theorem members?_brace_ne {fuel : Nat} {pad rest rest' : List Char}
    {ms : List (List Piece × Document)} (hpad : IsPadding pad) :
    members? fuel (pad ++ '\x7d' :: rest) ≠ some (ms, rest') := by
  intro h
  have empty {f : Nat} {key : List Piece} {d : Document} {t : List Char} :
      ¬MemberReading f (pad ++ '\x7d' :: rest) key d t := by
    rintro ⟨quote⟩
    cases eq_of_skipSpace_append hpad (stops_cons rfl _) quote rfl
  obtain ⟨f, -, reading⟩ := members?_eq_some h
  cases reading with
  | last member => exact empty member
  | next member => exact empty member

theorem isAgreed_compoundText {pad : List Char} {members : List Member} (hpad : IsPadding pad)
    (padded : ∀ m ∈ members, m.IsPadded) (keys : ∀ m ∈ members, AgreedKey m.key m.text)
    (inside : ∀ m ∈ members, IsAgreed m.value.tag m.value.text) :
    IsAgreed (.compound (Dictionary.ofList (members.map Member.entry)))
      (compoundText pad members) := by
  intro fuel before rest rest' d hbefore stop stop' value
  rw [compoundText_append] at value
  obtain ⟨fuel, rfl, reading⟩ := reading_of_value? hbefore (stops_cons rfl _) value
  generalize same : '\x7b' :: (pad ++ (Text.join [','] (members.map Member.written) ++
    '\x7d' :: rest)) = u at reading
  cases reading with
  | braces closed =>
    obtain ⟨-, rfl⟩ := List.cons.inj same
    cases members with
    | nil =>
      obtain ⟨-, rfl⟩ := List.cons.inj
        (eq_of_skipSpace_append hpad (stops_cons rfl _) closed rfl)
      refine ⟨rfl, fun {depth t'} ht => ?_⟩
      obtain ⟨_, es, hes, rfl⟩ := exists_of_ofDocument?_object ht
      cases hes
      rfl
    | cons m members =>
      obtain ⟨pads, -⟩ := List.forall_mem_cons.mp padded
      obtain ⟨name, -⟩ := List.forall_mem_cons.mp keys
      rw [List.map_cons, join_cons_append, m.written_append, ← List.append_assoc] at closed
      have first := eq_of_skipSpace_append (hpad.append pads.before) (name.key.stops _) closed rfl
      have filled := name.key.unclosed (m.after ++ ':' :: (m.value.before ++
        m.value.onward (follow (members.map Member.written) ('\x7d' :: rest))))
      rw [first] at filled
      cases filled '\x7d' rfl
  | object entries =>
    obtain ⟨-, rfl⟩ := List.cons.inj same
    cases members with
    | nil =>
      have brace : Stops Text.isBlank ('\x7d' :: rest) := stops_cons rfl _
      obtain ⟨pad', hpad', skip⟩ := skipSpace_append hpad brace
      rw [List.map_nil, Text.join, List.nil_append, skip] at entries
      exact absurd entries (members?_brace_ne hpad')
    | cons m members =>
      obtain ⟨pads, -⟩ := List.forall_mem_cons.mp padded
      obtain ⟨name, -⟩ := List.forall_mem_cons.mp keys
      rw [List.map_cons, join_cons_append, m.written_append, ← List.append_assoc] at entries
      obtain ⟨pad', hpad', skip⟩ := skipSpace_append (hpad.append pads.before) (name.key.stops _)
      rw [Member.onward, skip] at entries
      obtain ⟨rfl, tags⟩ := of_members? padded keys inside hpad' entries
      refine ⟨rfl, fun {depth t'} ht => ?_⟩
      obtain ⟨_, es, hes, rfl⟩ := exists_of_ofDocument?_object ht
      rw [tags hes]
  | number spelled => exact absurd same.symm (spelled.signed_append_ne (by decide) _ _)
  | _ => cases (List.cons.inj same).1

theorem Writes.isAgreed {t : Tag} {w : List Char} (h : Writes .agreed t w) : IsAgreed t w := by
  induction h with
  | leaf h => exact AgreedLeaf.isAgreed h
  | list padding padded inside ih =>
    exact isAgreed_listText padding padded (fun s hs => (inside s hs).relaxed_of_agreed) ih
  | marked padding hm => exact isAgreed_markedText padding hm _
  | compound padding padded keys inside ih => exact isAgreed_compoundText padding padded keys ih

theorem Writes.ofText_eq {t : Tag} {w before after : List Char} (h : Writes .agreed t w)
    (hbefore : IsPadding before) (hafter : IsPadding after) :
    ofText (before ++ (w ++ after)) = .ok t := by
  rw [ofText]
  split
  · rename_i t' strict
    obtain ⟨d, rest, value, hrest, ht⟩ := exists_of_ofJson? strict
    have stop : Stops Cursor.isBareValue rest := hrest.stops fun _ => isBareValue_of_isBlank
    have stop' : Stops Cursor.isBareValue after := hafter.stops fun _ => isBareValue_of_isBlank
    rw [(h.isAgreed hbefore stop' stop value).2 ht]
  · exact h.relaxed_of_agreed.relaxed_eq hbefore hafter

theorem Writes.read_eq {entries : Tags} {w before after : List Char}
    (h : Writes .agreed (.compound entries) w) (hbefore : IsPadding before)
    (hafter : IsPadding after) :
    Tags.read (String.ofList (before ++ (w ++ after))) = .ok entries := by
  rw [Tags.read, String.toList_ofList, h.ofText_eq hbefore hafter]

end ItemLexicon.Tag
