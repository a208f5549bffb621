import ItemLexicon.Proofs.WrittenBlocks

namespace ItemLexicon

namespace Json

open Document (TextReading hexUnit? escaped?)
open Tag (quotedChar hexDigit)

structure Piece.Denotes (p : Piece) (c : Char) : Prop where
  reading : ∀ {s rest : List Char} {ps : List Piece}, TextReading s ps rest →
    TextReading (quotedChar c ++ s) (p :: ps) rest
  assembled : ∀ ps, Piece.assemble? (p :: ps) = (Piece.assemble? ps).map (c :: ·)

theorem Piece.assemble?_unit_cons {n : Nat} (small : n < 0xD800) (ps : List Piece) :
    Piece.assemble? (.unit n :: ps) = (Piece.assemble? ps).map (Char.ofNat n :: ·) := by
  have high : Piece.isHigh n = false := by simp [Piece.isHigh]; omega
  have low : Piece.isLow n = false := by simp [Piece.isLow]; omega
  rw [Piece.assemble?.eq_def]
  split
  all_goals simp_all

theorem quotedChar_of_notMem {c : Char} (h : c ∉ ['"', '\\', '\x08', '\x0c', '\n', '\r', '\t']) :
    quotedChar c = if c.toNat < 0x20 then
      ['\\', 'u', '0', '0', hexDigit (c.toNat / 16), hexDigit (c.toNat % 16)] else [c] := by
  rw [quotedChar]
  all_goals
    rintro rfl
    exact h (by decide)

theorem exists_denotes (c : Char) : ∃ p : Piece, p.Denotes c := by
  by_cases special : c ∈ ['"', '\\', '\x08', '\x0c', '\n', '\r', '\t']
  · have letter {e : Char} (h : escaped? e = some c) (written : quotedChar c = ['\\', e]) :
        ∃ p : Piece, p.Denotes c :=
      ⟨.char c, fun more => written ▸ .escaped h more, fun _ => rfl⟩
    simp only [List.mem_cons, List.not_mem_nil, or_false] at special
    rcases special with rfl | rfl | rfl | rfl | rfl | rfl | rfl <;> exact letter rfl rfl
  · have written := quotedChar_of_notMem special
    split at written
    · rename_i control
      have digits : ∀ n < 0x20,
          hexUnit? '0' '0' (hexDigit (n / 16)) (hexDigit (n % 16)) = some n := by decide
      refine ⟨.unit c.toNat, fun more => written ▸ .unit (digits _ control) more, fun ps => ?_⟩
      rw [Piece.assemble?_unit_cons (by omega), Char.ofNat_toNat]
    · rename_i visible
      refine ⟨.char c, fun more => written ▸ .char (by omega) ?_ ?_ more, fun _ => rfl⟩
      · rintro rfl
        exact special (by decide)
      · rintro rfl
        exact special (by decide)

theorem exists_textReading_quoted (s : List Char) : ∃ ps, Piece.assemble? ps = some s ∧
    ∀ rest, TextReading (s.flatMap quotedChar ++ '"' :: rest) ps rest := by
  induction s with
  | nil => exact ⟨[], rfl, fun rest => .quote⟩
  | cons c s ih =>
    obtain ⟨p, hp⟩ := exists_denotes c
    obtain ⟨ps, known, reading⟩ := ih
    refine ⟨p :: ps, by rw [hp.assembled, known]; rfl, fun rest => ?_⟩
    rw [List.flatMap_cons, List.append_assoc]
    exact hp.reading (reading rest)

end Json

namespace Binary64

open Tag.Cursor (isBareValue)

theorem isBareValue_of_mem_point {ds : List Char} (h : ∀ c ∈ ds, isBareValue c = true) :
    ∀ c ∈ magnitudeText.point ds, isBareValue c = true := by
  cases ds with
  | nil => exact List.forall_mem_nil _
  | cons d ds => exact List.forall_mem_cons.mpr ⟨rfl, h⟩

theorem isBareValue_of_mem_magnitudeText (x : Binary64) :
    ∀ c ∈ x.magnitudeText, isBareValue c = true := by
  have digits (n : Nat) : ∀ c ∈ Numeral.ofNat n, isBareValue c = true :=
    fun c hc => Json.isBareValue_of_isDigit (Numeral.isDigit_of_mem_ofNat hc)
  have zeros (n : Nat) : ∀ c ∈ zeros n, isBareValue c = true := by
    intro c hc
    rw [(List.mem_replicate.mp hc).2]
    rfl
  have front (n k : Nat) : ∀ c ∈ (Numeral.ofNat n).take k, isBareValue c = true :=
    fun c hc => digits n c (List.mem_of_mem_take hc)
  have back (n k : Nat) : ∀ c ∈ (Numeral.ofNat n).drop k, isBareValue c = true :=
    fun c hc => digits n c (List.mem_of_mem_drop hc)
  have mark (s : List Char) (h : s.all isBareValue = true) : ∀ c ∈ s, isBareValue c = true :=
    List.all_eq_true.mp h
  rw [magnitudeText]
  split
  · exact mark _ rfl
  · dsimp only
    split
    · exact List.forall_mem_append.mpr ⟨mark _ rfl, digits _⟩
    · split
      · split
        · exact List.forall_mem_append.mpr
            ⟨List.forall_mem_append.mpr ⟨digits _, zeros _⟩, mark _ rfl⟩
        · exact List.forall_mem_append.mpr
            ⟨List.forall_mem_append.mpr ⟨front _ _, mark _ rfl⟩, back _ _⟩
      · refine List.forall_mem_append.mpr ⟨List.forall_mem_append.mpr
          ⟨List.forall_mem_append.mpr ⟨front _ _, ?_⟩, mark _ rfl⟩, digits _⟩
        exact isBareValue_of_mem_point (back _ _)
    · split
      · exact List.forall_mem_append.mpr
          ⟨List.forall_mem_append.mpr ⟨mark _ rfl, zeros _⟩, digits _⟩
      · refine List.forall_mem_append.mpr ⟨List.forall_mem_append.mpr
          ⟨List.forall_mem_append.mpr ⟨front _ _, ?_⟩, mark _ rfl⟩, digits _⟩
        exact isBareValue_of_mem_point (back _ _)

theorem isBareValue_of_mem_text (x : Binary64) : ∀ c ∈ x.text, isBareValue c = true := by
  rw [text]
  split
  · exact List.forall_mem_cons.mpr ⟨rfl, isBareValue_of_mem_magnitudeText x⟩
  · exact isBareValue_of_mem_magnitudeText x

end Binary64

namespace Tag

open Json (NumberText Spells)
open Json.Document

theorem exists_spells_of_float {w : List Char} {x : Binary64}
    (bare : ∀ c ∈ w, Cursor.isBareValue c = true) (h : ofJson? w = some (.float x)) :
    ∃ n v, w = n.signed v ∧ Spells n v ∧ n.tag? = some (.float x) := by
  have solid : Stops Text.isBlank w :=
    fun c hc => isBlank_of_isBareValue (bare c (List.mem_of_mem_head? hc))
  obtain ⟨f, d, rest, reading, pad, ht⟩ := reading_of_ofJson? solid h
  cases reading with
  | @number n v spelled rest =>
    obtain ⟨word, after⟩ := List.forall_mem_append.mp bare
    have ended : rest = [] := by
      cases rest with
      | nil => rfl
      | cons c rest =>
        have blank := isBlank_of_isBareValue (after c List.mem_cons_self)
        rw [pad c List.mem_cons_self] at blank
        cases blank
    refine ⟨n, v, by rw [ended, List.append_nil], spelled, ?_⟩
    rwa [ofDocument?] at ht
  | text => cases bare '"' List.mem_cons_self
  | brackets => cases bare '[' List.mem_cons_self
  | array => cases bare '[' List.mem_cons_self
  | braces => cases bare '\x7b' List.mem_cons_self
  | object => cases bare '\x7b' List.mem_cons_self
  | _ =>
    rw [ofDocument?] at ht
    cases ht

end Tag

namespace Json.Document

open Tag (Stops stops_cons isBlank_of_isBareValue)
open Tag.Cursor (isBareValue)

/-- The text is read as the document, whatever follows that is no part of a word. -/
structure Reads (w : List Char) (d : Document) : Prop where
  start : ∃ c v, w = c :: v ∧ Text.isBlank c = false ∧ c ≠ ']'
  value : ∀ {fuel : Nat} {rest : List Char}, 2 * w.length ≤ fuel → Stops isBareValue rest →
    value? fuel (w ++ rest) = some (d, rest)

theorem skipSpace_cons {c : Char} (h : Text.isBlank c = false) (s : List Char) :
    skipSpace (c :: s) = c :: s := by
  refine List.dropWhile_cons_of_neg fun space => ?_
  rw [isBlank_of_isSpace space] at h
  cases h

namespace Reads

variable {w : List Char} {d : Document}

theorem of_step (start : ∃ c v, w = c :: v ∧ Text.isBlank c = false ∧ c ≠ ']')
    (step : ∀ {fuel : Nat} {rest : List Char}, 2 * w.length ≤ fuel + 1 → Stops isBareValue rest →
      value? (fuel + 1) (w ++ rest) = some (d, rest)) : Reads w d where
  start := start
  value := by
    intro fuel rest enough stop
    obtain ⟨c, v, rfl, -⟩ := start
    cases fuel with
    | zero => cases enough
    | succ fuel => exact step enough stop

theorem null : Reads ['n', 'u', 'l', 'l'] .null :=
  .of_step ⟨_, _, rfl, rfl, by decide⟩ fun _ _ => by
    rw [value?, List.cons_append, skipSpace_cons rfl]
    rfl

theorem bool (b : Bool) : Reads (Tag.bool b).json (.bool b) := by
  cases b with
  | true =>
    refine .of_step ⟨_, _, rfl, rfl, by decide⟩ fun _ _ => ?_
    rw [value?, Tag.json, List.cons_append, skipSpace_cons rfl]
    rfl
  | false =>
    refine .of_step ⟨_, _, rfl, rfl, by decide⟩ fun _ _ => ?_
    rw [value?, Tag.json, List.cons_append, skipSpace_cons rfl]
    rfl

theorem number {n : NumberText} (h : Spells n w) : Reads (n.signed w) (.number n) := by
  obtain ⟨c, v, form, first⟩ := h.signed_eq_cons
  have bare := h.isBareValue c (form ▸ List.mem_cons_self)
  refine .of_step ⟨c, v, form, isBlank_of_isBareValue bare, ?_⟩ fun _ stop =>
    value?_number_append h stop
  rintro rfl
  cases bare

theorem quoted (s : List Char) :
    ∃ ps, Piece.assemble? ps = some s ∧ Reads (Tag.quoted s) (.text ps) := by
  obtain ⟨ps, known, reading⟩ := exists_textReading_quoted s
  refine ⟨ps, known, .of_step ⟨_, _, rfl, rfl, by decide⟩ fun {fuel rest} _ _ => ?_⟩
  rw [Tag.quoted, List.cons_append, List.cons_append, List.append_assoc]
  exact value?_quoted (reading rest)

end Reads

end Json.Document

namespace Tag

open Json.Document
open Json (Document Piece)

/-- A tag as strict JSON holds it, with at most so many containers inside each other.  Floating
point numbers are those that are read back from their text. -/
inductive IsStored : Nat → Tag → Prop
  | null {depth : Nat} : IsStored depth .null
  | bool {depth : Nat} (b : Bool) : IsStored depth (.bool b)
  | int {depth : Nat} {n : Int} (least : -(2 ^ 63) ≤ n) (greatest : n < 2 ^ 64) :
      IsStored depth (.int n)
  | float {depth : Nat} {x : Binary64} (inverse : ofJson? x.text = some (.float x)) :
      IsStored depth (.float x)
  | text {depth : Nat} (s : String) : IsStored depth (.text s)
  | list {depth : Nat} {items : List Tag} (inside : ∀ t ∈ items, IsStored depth t) :
      IsStored (depth + 1) (.list items)
  | compound {depth : Nat} {entries : Tags} (sorted : Dictionary.Sorted entries)
      (inside : ∀ e ∈ entries, IsStored depth e.2) : IsStored (depth + 1) (.compound entries)

def IsReadBack (depth : Nat) (t : Tag) : Prop :=
  ∃ d, Reads t.json d ∧ ofDocument? depth d = some t

theorem exists_items?_jsonItems {depth : Nat} {t : Tag} {ts : List Tag}
    (h : ∀ u ∈ t :: ts, IsReadBack depth u) :
    ∃ ds, itemsOfDocuments? depth ds = some (t :: ts) ∧ ∀ {fuel : Nat} {rest : List Char},
      2 * (jsonItems (t :: ts)).length ≤ fuel →
        items? fuel (jsonItems (t :: ts) ++ rest) = some (ds, rest) := by
  induction ts generalizing t with
  | nil =>
    obtain ⟨d, reads, ht⟩ := h t List.mem_cons_self
    refine ⟨[d], by simp [itemsOfDocuments?, ht], fun {fuel rest} enough => ?_⟩
    rw [jsonItems, List.length_append, List.length_singleton] at enough
    obtain ⟨fuel, rfl⟩ : ∃ f, fuel = f + 1 := ⟨fuel - 1, by omega⟩
    have value : value? fuel (t.json ++ ']' :: rest) = some (d, ']' :: rest) :=
      reads.value (by omega) (stops_cons rfl _)
    rw [jsonItems, List.append_assoc, List.singleton_append, items?, value]
    rfl
  | cons u ts ih =>
    obtain ⟨d, reads, ht⟩ := h t List.mem_cons_self
    obtain ⟨ds, hts, more⟩ := ih fun v hv => h v (List.mem_cons_of_mem t hv)
    refine ⟨d :: ds, by rw [itemsOfDocuments?, ht, hts], fun {fuel rest} enough => ?_⟩
    rw [jsonItems, List.length_append, List.length_cons] at enough
    obtain ⟨fuel, rfl⟩ : ∃ f, fuel = f + 1 := ⟨fuel - 1, by omega⟩
    have value : value? fuel (t.json ++ ',' :: (jsonItems (u :: ts) ++ rest)) =
        some (d, ',' :: (jsonItems (u :: ts) ++ rest)) :=
      reads.value (by omega) (stops_cons rfl _)
    rw [jsonItems, List.append_assoc, List.cons_append, items?, value]
    change (items? fuel (jsonItems (u :: ts) ++ rest)).map _ = _
    rw [more (by omega)]
    rfl

theorem members?_quoted_brace {fuel : Nat} {k s rest : List Char} {ps : List Piece} {d : Document}
    (reading : TextReading (k.flatMap quotedChar ++ '"' :: ':' :: s) ps (':' :: s))
    (value : value? fuel s = some (d, '\x7d' :: rest)) :
    members? (fuel + 1) (quoted k ++ ':' :: s) = some ([(ps, d)], rest) := by
  rw [members?, quoted, List.cons_append, List.cons_append, List.append_assoc,
    List.singleton_append, skipSpace_cons rfl]
  simp only [quoted?_eq_some_iff.mpr reading, skipSpace_cons (c := ':') rfl, value,
    skipSpace_cons (c := '\x7d') rfl]

theorem members?_quoted_comma {fuel : Nat} {k s t : List Char} {ps : List Piece} {d : Document}
    (reading : TextReading (k.flatMap quotedChar ++ '"' :: ':' :: s) ps (':' :: s))
    (value : value? fuel s = some (d, ',' :: t)) :
    members? (fuel + 1) (quoted k ++ ':' :: s) =
      (members? fuel t).map fun p => ((ps, d) :: p.1, p.2) := by
  rw [members?, quoted, List.cons_append, List.cons_append, List.append_assoc,
    List.singleton_append, skipSpace_cons rfl]
  simp only [quoted?_eq_some_iff.mpr reading, skipSpace_cons (c := ':') rfl, value,
    skipSpace_cons (c := ',') rfl]

theorem exists_members?_jsonEntries {depth : Nat} {e : String × Tag} {es : Tags}
    (h : ∀ e' ∈ e :: es, IsReadBack depth e'.2) :
    ∃ ms, entriesOfMembers? depth ms = some (e :: es) ∧ ∀ {fuel : Nat} {rest : List Char},
      2 * (jsonEntries (e :: es)).length ≤ fuel →
        members? fuel (jsonEntries (e :: es) ++ rest) = some (ms, rest) := by
  induction es generalizing e with
  | nil =>
    obtain ⟨k, t⟩ := e
    obtain ⟨d, reads, ht⟩ : IsReadBack depth t := h (k, t) List.mem_cons_self
    obtain ⟨ps, known, reading⟩ := Json.exists_textReading_quoted k.toList
    refine ⟨[(ps, d)], by simp [entriesOfMembers?, known, ht], fun {fuel rest} enough => ?_⟩
    rw [jsonEntries, List.length_append, List.length_cons, List.length_append,
      List.length_singleton] at enough
    obtain ⟨fuel, rfl⟩ : ∃ f, fuel = f + 1 := ⟨fuel - 1, by omega⟩
    have value : value? fuel (t.json ++ '\x7d' :: rest) = some (d, '\x7d' :: rest) :=
      reads.value (by omega) (stops_cons rfl _)
    rw [jsonEntries, List.append_assoc, List.cons_append, List.append_assoc,
      List.singleton_append, members?_quoted_brace (reading _) value]
  | cons e' es ih =>
    obtain ⟨k, t⟩ := e
    obtain ⟨d, reads, ht⟩ : IsReadBack depth t := h (k, t) List.mem_cons_self
    obtain ⟨ps, known, reading⟩ := Json.exists_textReading_quoted k.toList
    obtain ⟨ms, hes, more⟩ := ih fun e hm => h e (List.mem_cons_of_mem _ hm)
    refine ⟨(ps, d) :: ms, by simp [entriesOfMembers?, known, ht, hes],
      fun {fuel rest} enough => ?_⟩
    rw [jsonEntries, List.length_append, List.length_cons, List.length_append,
      List.length_cons] at enough
    obtain ⟨fuel, rfl⟩ : ∃ f, fuel = f + 1 := ⟨fuel - 1, by omega⟩
    have value : value? fuel (t.json ++ ',' :: (jsonEntries (e' :: es) ++ rest)) =
        some (d, ',' :: (jsonEntries (e' :: es) ++ rest)) :=
      reads.value (by omega) (stops_cons rfl _)
    rw [jsonEntries, List.append_assoc, List.cons_append, List.append_assoc, List.cons_append,
      members?_quoted_comma (reading _) value, more (by omega), Option.map_some]

theorem value?_bracket (fuel : Nat) (s : List Char) :
    value? (fuel + 1) ('[' :: s) = match skipSpace s with
      | ']' :: s => some (.array [], s)
      | s => (items? fuel s).map fun p => (.array p.1, p.2) := by
  rw [value?, skipSpace_cons rfl]
  rfl

theorem value?_brace (fuel : Nat) (s : List Char) :
    value? (fuel + 1) ('\x7b' :: s) = match skipSpace s with
      | '\x7d' :: s => some (.object [], s)
      | s => (members? fuel s).map fun p => (.object p.1, p.2) := by
  rw [value?, skipSpace_cons rfl]
  rfl

theorem isReadBack_list {depth : Nat} {items : List Tag} (h : ∀ t ∈ items, IsReadBack depth t) :
    IsReadBack (depth + 1) (.list items) := by
  cases items with
  | nil =>
    refine ⟨.array [], .of_step ⟨'[', _, rfl, rfl, by decide⟩ fun _ _ => ?_, by
      simp [ofDocument?, itemsOfDocuments?]⟩
    rw [json, jsonItems, List.cons_append, List.singleton_append, value?_bracket,
      skipSpace_cons rfl]
    rfl
  | cons t ts =>
    obtain ⟨ds, hts, reads⟩ := exists_items?_jsonItems h
    obtain ⟨d, first, -⟩ := h t List.mem_cons_self
    obtain ⟨c, v, form, solid, ne⟩ := first.start
    obtain ⟨u, start⟩ : ∃ u, jsonItems (t :: ts) = c :: u := by
      cases ts <;> exact ⟨_, by rw [jsonItems, form, List.cons_append]⟩
    refine ⟨.array ds, .of_step ⟨'[', _, by rw [json], rfl, by decide⟩
      fun {fuel rest} enough _ => ?_, by rw [ofDocument?, hts, Option.map_some]⟩
    rw [json, List.length_cons] at enough
    have skip : skipSpace (jsonItems (t :: ts) ++ rest) = jsonItems (t :: ts) ++ rest := by
      rw [start, List.cons_append, skipSpace_cons solid]
    rw [json, List.cons_append, value?_bracket, skip]
    split
    · rename_i closed
      rw [start, List.cons_append] at closed
      exact absurd (List.cons.inj closed).1 ne
    · rw [reads (by omega)]
      rfl

theorem isReadBack_compound {depth : Nat} {entries : Tags} (sorted : Dictionary.Sorted entries)
    (h : ∀ e ∈ entries, IsReadBack depth e.2) : IsReadBack (depth + 1) (.compound entries) := by
  cases entries with
  | nil =>
    refine ⟨.object [], .of_step ⟨'\x7b', _, rfl, rfl, by decide⟩ fun _ _ => ?_, by
      simp [ofDocument?, entriesOfMembers?, Dictionary.ofList]⟩
    rw [json, jsonEntries, List.cons_append, List.singleton_append, value?_brace,
      skipSpace_cons rfl]
    rfl
  | cons e es =>
    obtain ⟨ms, hes, reads⟩ := exists_members?_jsonEntries h
    obtain ⟨u, start⟩ : ∃ u, jsonEntries (e :: es) = '"' :: u := by
      cases es <;> exact ⟨_, by rw [jsonEntries, quoted, List.cons_append, List.cons_append]⟩
    refine ⟨.object ms, .of_step ⟨'\x7b', _, by rw [json], rfl, by decide⟩
      fun {fuel rest} enough _ => ?_, by rw [ofDocument?, hes, Option.map_some, sorted.ofList_eq]⟩
    rw [json, List.length_cons] at enough
    have skip : skipSpace (jsonEntries (e :: es) ++ rest) = jsonEntries (e :: es) ++ rest := by
      rw [start, List.cons_append, skipSpace_cons rfl]
    rw [json, List.cons_append, value?_brace, skip]
    split
    · rename_i closed
      rw [start, List.cons_append] at closed
      cases (List.cons.inj closed).1
    · rw [reads (by omega)]
      rfl

theorem IsStored.isReadBack {depth : Nat} {t : Tag} (h : IsStored depth t) :
    IsReadBack depth t := by
  induction h with
  | null => exact ⟨.null, .null, by rw [ofDocument?]⟩
  | bool b => exact ⟨.bool b, .bool b, by rw [ofDocument?]⟩
  | @int depth n least greatest =>
    refine ⟨.number (numberText n), ?_, by rw [ofDocument?, tag?_numberText least greatest]⟩
    rw [json, intText_eq]
    exact .number (spells_numberText n)
  | @float depth x inverse =>
    obtain ⟨n, v, form, spelled, known⟩ :=
      exists_spells_of_float (Binary64.isBareValue_of_mem_text x) inverse
    refine ⟨.number n, ?_, by rw [ofDocument?, known]⟩
    rw [json, form]
    exact .number spelled
  | @text depth s =>
    obtain ⟨ps, known, reads⟩ := Reads.quoted s.toList
    refine ⟨.text ps, by rwa [json], ?_⟩
    rw [ofDocument?, known, Option.map_some, String.ofList_toList]
  | list inside ih => exact isReadBack_list ih
  | compound sorted inside ih => exact isReadBack_compound sorted ih

end Tag

theorem Tags.read_json {tags : Tags} (h : Tag.IsStored Tag.maxDepth (.compound tags)) :
    Tags.read tags.json = .ok tags := by
  obtain ⟨d, reads, ht⟩ := h.isReadBack
  have value := reads.value (Nat.le_add_right _ 2) (Tag.stops_nil _)
  rw [List.append_nil] at value
  have strict : Tag.ofJson? (Tag.json (.compound tags)) = some (.compound tags) := by
    rw [Tag.ofJson?, Json.Document.read?, value]
    exact ht
  rw [Tags.read, Tags.json, String.toList_ofList, Tag.ofText, strict]

end ItemLexicon
