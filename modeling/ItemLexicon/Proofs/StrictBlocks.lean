import ItemLexicon.Proofs.AgreedBlocks
import ItemLexicon.Proofs.ShortDecimals

namespace ItemLexicon.Json

/-- A character written as itself or with an escape that the reader of blocks knows. -/
def Piece.IsPlain (p : Piece) : Prop := ∃ c, p = .char c ∧ c ∉ ['\x08', '\x0c', '\r']

inductive Document.IsPlain : Document → Prop
  | null : IsPlain .null
  | bool (b : Bool) : IsPlain (.bool b)
  | number {n : NumberText} (h : n.ReadsAlike) : IsPlain (.number n)
  | text {ps : List Piece} (h : ∀ p ∈ ps, p.IsPlain) : IsPlain (.text ps)
  | array {items : List Document} (h : ∀ d ∈ items, IsPlain d) : IsPlain (.array items)
  | object {members : List (List Piece × Document)}
      (keys : ∀ m ∈ members, m.1 ≠ [] ∧ ∀ p ∈ m.1, p.IsPlain)
      (values : ∀ m ∈ members, IsPlain m.2) : IsPlain (.object members)

end ItemLexicon.Json

namespace ItemLexicon.Tag

open Json (Document NumberText Spells Piece)
open Json.Document

structure UnquotesKey (k w w' : List Char) : Prop where
  key : AgreedKey k w
  quote : w.head? = some '"'
  unquoted : w' = w ∨ w' = k ∧ ∀ c ∈ k, Cursor.isBareKey c = true

/-- A text of a tag with all keys in double quotes, and the same text where some of them, in any
depth, have lost their quotes. -/
inductive Unquotes : Tag → List Char → List Char → Prop
  | leaf {t : Tag} {w : List Char} (h : AgreedLeaf t w) : Unquotes t w w
  | list {pad : List Char} {slots : List (Slot × List Char)} (padding : IsPadding pad)
      (padded : ∀ s ∈ slots, s.1.IsPadded) (inside : ∀ s ∈ slots, Unquotes s.1.tag s.1.text s.2) :
      Unquotes (.list (slots.map fun s => s.1.tag)) (listText pad (slots.map fun s => s.1))
        (listText pad (slots.map fun s => { s.1 with text := s.2 }))
  | compound {pad : List Char} {members : List (Member × List Char × List Char)}
      (padding : IsPadding pad) (padded : ∀ m ∈ members, m.1.IsPadded)
      (keys : ∀ m ∈ members, UnquotesKey m.1.key m.1.text m.2.1)
      (inside : ∀ m ∈ members, Unquotes m.1.value.tag m.1.value.text m.2.2) :
      Unquotes (.compound (Dictionary.ofList (members.map fun m => m.1.entry)))
        (compoundText pad (members.map fun m => m.1))
        (compoundText pad (members.map fun m =>
          { m.1 with text := m.2.1, value := { m.1.value with text := m.2.2 } }))

theorem Unquotes.list_self {pad : List Char} {slots : List Slot} (padding : IsPadding pad)
    (padded : ∀ s ∈ slots, s.IsPadded) (inside : ∀ s ∈ slots, Unquotes s.tag s.text s.text) :
    Unquotes (.list (slots.map Slot.tag)) (listText pad slots) (listText pad slots) := by
  have same := @Unquotes.list pad (slots.map fun s => (s, s.text)) padding
    (List.forall_mem_map.mpr padded) (List.forall_mem_map.mpr inside)
  simpa only [List.map_map, Function.comp_def, List.map_id'] using same

theorem Unquotes.compound_self {pad : List Char} {members : List Member} (padding : IsPadding pad)
    (padded : ∀ m ∈ members, m.IsPadded)
    (keys : ∀ m ∈ members, UnquotesKey m.key m.text m.text)
    (inside : ∀ m ∈ members, Unquotes m.value.tag m.value.text m.value.text) :
    Unquotes (.compound (Dictionary.ofList (members.map Member.entry))) (compoundText pad members)
      (compoundText pad members) := by
  have same := @Unquotes.compound pad (members.map fun m => (m, m.text, m.value.text)) padding
    (List.forall_mem_map.mpr padded) (List.forall_mem_map.mpr keys) (List.forall_mem_map.mpr inside)
  simpa only [List.map_map, Function.comp_def, List.map_id'] using same

theorem UnquotesKey.agreed {k w w' : List Char} (h : UnquotesKey k w w') : AgreedKey k w' := by
  obtain ⟨key, -, rfl | ⟨rfl, bare⟩⟩ := h
  · exact key
  · exact .bare key.key.ne_nil bare

theorem Unquotes.writes {t : Tag} {w w' : List Char} (h : Unquotes t w w') :
    Writes .agreed t w' := by
  induction h with
  | leaf h => exact .leaf h
  | @list pad slots padding padded inside ih =>
    have pads : ∀ s ∈ slots.map fun s => { s.1 with text := s.2 }, s.IsPadded :=
      List.forall_mem_map.mpr fun s hs => ⟨(padded s hs).before, (padded s hs).after⟩
    have written := Writes.list padding pads (List.forall_mem_map.mpr ih)
    rwa [List.map_map] at written
  | @compound pad members padding padded keys inside ih =>
    have pads : ∀ m ∈ members.map fun m =>
        { m.1 with text := m.2.1, value := { m.1.value with text := m.2.2 } }, m.IsPadded :=
      List.forall_mem_map.mpr fun m hm =>
        ⟨(padded m hm).before, (padded m hm).after, (padded m hm).value.before,
          (padded m hm).value.after⟩
    have written := Writes.compound padding pads
      (List.forall_mem_map.mpr fun m hm => (keys m hm).agreed) (List.forall_mem_map.mpr ih)
    rwa [List.map_map] at written

theorem exists_skipSpace (s : List Char) : ∃ pad, IsPadding pad ∧ s = pad ++ skipSpace s := by
  refine ⟨s.takeWhile isSpace, fun c hc => ?_, List.takeWhile_append_dropWhile.symm⟩
  exact isBlank_of_isSpace (List.all_eq_true.mp List.all_takeWhile c hc)

theorem unescape_of_escaped? {e c : Char} (h : escaped? e = some c)
    (plain : c ∉ ['\x08', '\x0c', '\r']) : unescape e = c := by
  rw [escaped?.eq_def] at h
  split at h
  all_goals cases h
  · rfl
  · rfl
  · rfl
  · exact absurd (by decide) plain
  · exact absurd (by decide) plain
  · rfl
  · exact absurd (by decide) plain
  · rfl

theorem exists_quotes_of_isPlain {s rest : List Char} {ps : List Piece} (h : TextReading s ps rest)
    (plain : ∀ p ∈ ps, p.IsPlain) :
    ∃ v k, s = v ++ '"' :: rest ∧ Piece.assemble? ps = some k ∧ Quotes '"' k v := by
  induction h with
  | quote => exact ⟨[], [], rfl, rfl, .nil⟩
  | unit h more ih =>
    obtain ⟨⟨c, same, -⟩, -⟩ := List.forall_mem_cons.mp plain
    cases same
  | @escaped e c s rest ps h more ih =>
    obtain ⟨⟨c', same, allowed⟩, plain⟩ := List.forall_mem_cons.mp plain
    cases same
    obtain ⟨v, k, rfl, hk, quotes⟩ := ih plain
    refine ⟨'\\' :: e :: v, c :: k, rfl, by rw [Piece.assemble?, hk]; rfl, ?_⟩
    rw [← unescape_of_escaped? h allowed]
    exact .escaped e quotes
  | @char c s rest ps visible hb hq more ih =>
    obtain ⟨-, plain⟩ := List.forall_mem_cons.mp plain
    obtain ⟨v, k, rfl, hk, quotes⟩ := ih plain
    exact ⟨c :: v, c :: k, rfl, by rw [Piece.assemble?, hk]; rfl, .char hq hb quotes⟩

def IsLaidOut (fuel : Nat) : Prop :=
  ∀ {s rest : List Char} {d : Document} {depth : Nat} {t : Tag}, value? fuel s = some (d, rest) →
    d.IsPlain → ofDocument? depth d = some t →
    ∃ pad w, s = pad ++ (w ++ rest) ∧ IsPadding pad ∧ Unquotes t w w

theorem exists_slot {fuel : Nat} (value : IsLaidOut fuel) {s u tail : List Char} {d : Document}
    {c : Char} {depth : Nat} {t : Tag} (h : value? fuel s = some (d, u)) (plain : d.IsPlain)
    (ht : ofDocument? depth d = some t) (next : skipSpace u = c :: tail) :
    ∃ slot : Slot, s = slot.written ++ c :: tail ∧ slot.IsPadded ∧
      Unquotes slot.tag slot.text slot.text ∧ slot.tag = t := by
  obtain ⟨pad, w, rfl, hpad, written⟩ := value h plain ht
  obtain ⟨after, hafter, behind⟩ := exists_skipSpace u
  rw [next] at behind
  refine ⟨⟨pad, t, w, after⟩, ?_, ⟨hpad, hafter⟩, written, rfl⟩
  rw [behind, Slot.written_append]
  rfl

theorem exists_slots {fuel : Nat} (values : ∀ f < fuel, IsLaidOut f) {s rest : List Char}
    {ds : List Document} {depth : Nat} {ts : List Tag} (h : items? fuel s = some (ds, rest))
    (plain : ∀ d ∈ ds, d.IsPlain) (hts : itemsOfDocuments? depth ds = some ts) :
    ∃ (slot : Slot) (slots : List Slot),
      s = slot.written ++ follow (slots.map Slot.written) (']' :: rest) ∧
      (∀ s ∈ slot :: slots, s.IsPadded) ∧ (∀ s ∈ slot :: slots, Unquotes s.tag s.text s.text) ∧
      (slot :: slots).map Slot.tag = ts := by
  induction ds generalizing fuel s ts with
  | nil =>
    obtain ⟨_, -, reading⟩ := items?_eq_some h
    cases reading
  | cons d ds ih =>
    obtain ⟨fuel, rfl, reading⟩ := items?_eq_some h
    cases reading with
    | last value bracket =>
      obtain ⟨first, -⟩ := List.forall_mem_cons.mp plain
      obtain ⟨t, none, ht, hnone, rfl⟩ := itemsOfDocuments?_cons hts
      cases hnone
      obtain ⟨slot, rfl, padded, written, rfl⟩ :=
        exists_slot (values fuel (Nat.lt_succ_self _)) value first ht bracket
      exact ⟨slot, [], rfl, List.forall_mem_singleton.mpr padded,
        List.forall_mem_singleton.mpr written, rfl⟩
    | next value comma more =>
      obtain ⟨first, plain⟩ := List.forall_mem_cons.mp plain
      obtain ⟨t, us, ht, hus, rfl⟩ := itemsOfDocuments?_cons hts
      obtain ⟨slot, rfl, padded, written, rfl⟩ :=
        exists_slot (values fuel (Nat.lt_succ_self _)) value first ht comma
      obtain ⟨slot', slots, rfl, padded', written', rfl⟩ :=
        ih (fun f hf => values f (Nat.lt_succ_of_lt hf)) more plain hus
      exact ⟨slot, slot' :: slots, by rw [List.map_cons, follow_cons],
        List.forall_mem_cons.mpr ⟨padded, padded'⟩, List.forall_mem_cons.mpr ⟨written, written'⟩,
        rfl⟩

theorem exists_member {fuel : Nat} (value : IsLaidOut fuel) {s u tail : List Char} {c : Char}
    {key : List Piece} {k : List Char} {d : Document} {depth : Nat} {t : Tag}
    (h : MemberReading fuel s key d u) (filled : key ≠ []) (plainKey : ∀ p ∈ key, p.IsPlain)
    (hk : Piece.assemble? key = some k) (plain : d.IsPlain) (ht : ofDocument? depth d = some t)
    (next : skipSpace u = c :: tail) :
    ∃ member : Member, s = member.written ++ c :: tail ∧ member.IsPadded ∧
      UnquotesKey member.key member.text member.text ∧
      Unquotes member.value.tag member.value.text member.value.text ∧
      member.entry = (String.ofList k, t) := by
  cases h with
  | @intro _ v w quote text colon value' =>
    obtain ⟨slot, rfl, padded, written, rfl⟩ := exists_slot value value' plain ht next
    obtain ⟨before, hbefore, front⟩ := exists_skipSpace s
    obtain ⟨after, hafter, behind⟩ := exists_skipSpace v
    rw [quote] at front
    rw [colon] at behind
    obtain ⟨x, k', rfl, hk', quotes⟩ :=
      exists_quotes_of_isPlain (quoted?_eq_some_iff.mp text) plainKey
    rw [hk] at hk'
    cases hk'
    have ne : k ≠ [] := by
      rintro rfl
      obtain ⟨p, ps, rfl⟩ := List.exists_cons_of_ne_nil filled
      obtain ⟨⟨c, rfl, -⟩, -⟩ := List.forall_mem_cons.mp plainKey
      obtain ⟨_, -, same⟩ := Option.map_eq_some_iff.mp hk
      cases same
    have whole := ((quoted?_eq_some_iff.mp text).of_quotes quotes rfl).2 []
    have name : AgreedKey k ('"' :: x ++ ['"']) := by
      refine .quoted rfl ne quotes fun {k'} strict => ?_
      rw [List.cons_append, ofJson?_eq fun fuel => value?_quoted whole, ofDocument?, hk] at strict
      cases strict
      rfl
    refine ⟨⟨before, k, '"' :: x ++ ['"'], after, slot⟩, ?_, ⟨hbefore, hafter, padded⟩,
      ⟨name, rfl, .inl rfl⟩, written, rfl⟩
    rw [front, behind, Member.written_append, Slot.written_append]
    simp only [Member.onward, List.cons_append, List.append_assoc, List.nil_append]

theorem exists_members {fuel : Nat} (values : ∀ f < fuel, IsLaidOut f) {s rest : List Char}
    {ms : List (List Piece × Document)} {depth : Nat} {es : List (String × Tag)}
    (h : members? fuel s = some (ms, rest)) (keys : ∀ m ∈ ms, m.1 ≠ [] ∧ ∀ p ∈ m.1, p.IsPlain)
    (plain : ∀ m ∈ ms, m.2.IsPlain) (hes : entriesOfMembers? depth ms = some es) :
    ∃ (member : Member) (members : List Member),
      s = member.written ++ follow (members.map Member.written) ('\x7d' :: rest) ∧
      (∀ m ∈ member :: members, m.IsPadded) ∧
      (∀ m ∈ member :: members, UnquotesKey m.key m.text m.text) ∧
      (∀ m ∈ member :: members, Unquotes m.value.tag m.value.text m.value.text) ∧
      (member :: members).map Member.entry = es := by
  induction ms generalizing fuel s es with
  | nil =>
    obtain ⟨_, -, reading⟩ := members?_eq_some h
    cases reading
  | cons m ms ih =>
    obtain ⟨fuel, rfl, reading⟩ := members?_eq_some h
    cases reading with
    | last reading brace =>
      obtain ⟨⟨filled, plainKey⟩, -⟩ := List.forall_mem_cons.mp keys
      obtain ⟨first, -⟩ := List.forall_mem_cons.mp plain
      obtain ⟨k, t, none, hk, ht, hnone, rfl⟩ := entriesOfMembers?_cons hes
      cases hnone
      obtain ⟨member, rfl, padded, name, written, entry⟩ := exists_member
        (values fuel (Nat.lt_succ_self _)) reading filled plainKey hk first ht brace
      exact ⟨member, [], rfl, List.forall_mem_singleton.mpr padded,
        List.forall_mem_singleton.mpr name, List.forall_mem_singleton.mpr written, by
          rw [List.map_singleton, entry]⟩
    | next reading comma more =>
      obtain ⟨⟨filled, plainKey⟩, keys⟩ := List.forall_mem_cons.mp keys
      obtain ⟨first, plain⟩ := List.forall_mem_cons.mp plain
      obtain ⟨k, t, es', hk, ht, hes', rfl⟩ := entriesOfMembers?_cons hes
      obtain ⟨member, rfl, padded, name, written, entry⟩ := exists_member
        (values fuel (Nat.lt_succ_self _)) reading filled plainKey hk first ht comma
      obtain ⟨member', members, rfl, padded', names, written', rfl⟩ :=
        ih (fun f hf => values f (Nat.lt_succ_of_lt hf)) more keys plain hes'
      exact ⟨member, member' :: members, by rw [List.map_cons, follow_cons],
        List.forall_mem_cons.mpr ⟨padded, padded'⟩, List.forall_mem_cons.mpr ⟨name, names⟩,
        List.forall_mem_cons.mpr ⟨written, written'⟩, by rw [List.map_cons, entry]⟩

theorem isLaidOut (fuel : Nat) : IsLaidOut fuel := by
  induction fuel using Nat.strongRecOn with
  | ind fuel ih =>
    intro s rest d depth t value plain ht
    cases fuel with
    | zero => cases value
    | succ fuel =>
      -- Items and members are read in fewer steps than the value that they are in.
      have values : ∀ f < fuel, IsLaidOut f := fun f hf => ih f (Nat.lt_succ_of_lt hf)
      obtain ⟨pad, hpad, front⟩ := exists_skipSpace s
      have reading := value?_eq_some value
      generalize skipSpace s = u at reading front
      have word {w : List Char} (leaf : AgreedLeaf t w) (same : u = w ++ rest) :
          ∃ pad w, s = pad ++ (w ++ rest) ∧ IsPadding pad ∧ Unquotes t w w :=
        ⟨pad, w, by rw [front, same], hpad, .leaf leaf⟩
      cases reading with
      | null =>
        have leaf : AgreedLeaf t ['n', 'u', 'l', 'l'] :=
          agreedLeaf_of_bare (Option.some.inj ht) (List.cons_ne_nil _ _) rfl (fun _ => rfl) ht
        exact word leaf rfl
      | trueWord =>
        have leaf : AgreedLeaf t ['t', 'r', 'u', 'e'] :=
          agreedLeaf_of_bare (Option.some.inj ht) (List.cons_ne_nil _ _) rfl (fun _ => rfl) ht
        exact word leaf rfl
      | falseWord =>
        have leaf : AgreedLeaf t ['f', 'a', 'l', 's', 'e'] :=
          agreedLeaf_of_bare (Option.some.inj ht) (List.cons_ne_nil _ _) rfl (fun _ => rfl) ht
        exact word leaf rfl
      | @text _ _ ps h =>
        obtain ⟨k, hk, rfl⟩ := Option.map_eq_some_iff.mp ht
        cases plain with
        | text plain =>
          obtain ⟨v, k', rfl, hk', quotes⟩ :=
            exists_quotes_of_isPlain (quoted?_eq_some_iff.mp h) plain
          rw [hk] at hk'
          cases hk'
          have whole := ((quoted?_eq_some_iff.mp h).of_quotes quotes rfl).2 []
          have text : ofDocument? maxDepth (.text ps) = some (.text (String.ofList k)) := by
            rw [ofDocument?, hk]
            rfl
          refine word (agreedLeaf_of_value? (.quoted rfl quotes) (fun _ => value?_quoted whole)
            text) ?_
          simp only [List.cons_append, List.append_assoc, List.nil_append]
      | number spelled =>
        cases plain with
        | number alike =>
          have number := Json.number?_signed spelled alike ht
          exact word (agreedLeaf_of_bare (ofBare_of_number? number) spelled.signed_ne_nil
            (List.all_eq_true.mpr spelled.isBareValue) (fun _ => value?_number spelled) ht) rfl
      | @brackets v _ closed =>
        obtain ⟨inside, hinside, behind⟩ := exists_skipSpace v
        rw [closed] at behind
        obtain ⟨_, ts, hts, rfl⟩ := exists_of_ofDocument?_array ht
        cases hts
        refine ⟨pad, listText inside [], ?_, hpad,
          .list_self hinside (List.forall_mem_nil _) (List.forall_mem_nil _)⟩
        rw [front, behind, listText_append]
        rfl
      | @array v _ ds items =>
        obtain ⟨inside, hinside, behind⟩ := exists_skipSpace v
        obtain ⟨_, ts, hts, rfl⟩ := exists_of_ofDocument?_array ht
        cases plain with
        | array plain =>
          obtain ⟨slot, slots, same, padded, written, rfl⟩ := exists_slots values items plain hts
          refine ⟨pad, listText inside (slot :: slots), ?_, hpad, .list_self hinside padded written⟩
          rw [front, behind, same, listText_append, List.map_cons, join_cons_append]
      | @braces v _ closed =>
        obtain ⟨inside, hinside, behind⟩ := exists_skipSpace v
        rw [closed] at behind
        obtain ⟨_, es, hes, rfl⟩ := exists_of_ofDocument?_object ht
        cases hes
        refine ⟨pad, compoundText inside [], ?_, hpad, .compound_self hinside
          (List.forall_mem_nil _) (List.forall_mem_nil _) (List.forall_mem_nil _)⟩
        rw [front, behind, compoundText_append]
        rfl
      | @object v _ ms members =>
        obtain ⟨inside, hinside, behind⟩ := exists_skipSpace v
        obtain ⟨_, es, hes, rfl⟩ := exists_of_ofDocument?_object ht
        cases plain with
        | object keys plain =>
          obtain ⟨member, members, same, padded, names, written, rfl⟩ :=
            exists_members values members keys plain hes
          refine ⟨pad, compoundText inside (member :: members), ?_, hpad,
            .compound_self hinside padded names written⟩
          rw [front, behind, same, compoundText_append, List.map_cons, join_cons_append]

/-- A block that is plain strict JSON reads alike in both ways, and it stays what it is when keys of
it lose their quotes. -/
theorem relaxed_eq_of_isPlain {s : List Char} {d : Document} {entries : Tags}
    (read : read? s = some d) (object : ofDocument? maxDepth d = some (.compound entries))
    (plain : d.IsPlain) :
    relaxed s = .ok (.compound entries) ∧
      ∃ before w after, s = before ++ (w ++ after) ∧ Unquotes (.compound entries) w w ∧
        ∀ w', Unquotes (.compound entries) w w' →
          Tags.read (String.ofList (before ++ (w' ++ after))) = .ok entries := by
  rw [read?] at read
  split at read
  · rename_i d' after value
    split at read
    · rename_i atEnd
      cases read
      obtain ⟨before, w, rfl, hbefore, written⟩ := isLaidOut _ value plain object
      have hafter := isPadding_of_skipSpace atEnd
      exact ⟨written.writes.relaxed_of_agreed.relaxed_eq hbefore hafter, before, w, after, rfl,
        written, fun w' unquoted => unquoted.writes.read_eq hbefore hafter⟩
    · cases read
  · cases read

theorem relaxed_eq_of_isPlain_of_pair :
    relaxed ['\x7b', '"', 'a', '"', ':', '1', '.', '5', ',', '"', 'b', '"', ':', '1', '\x7d'] =
      .ok (.compound [("a", .float ⟨false, 6755399441055744, -52⟩), ("b", .int 1)]) := by
  have letter {c : Char} (h : c ∉ ['\x08', '\x0c', '\r']) :
      [Piece.char c] ≠ [] ∧ ∀ p ∈ [Piece.char c], p.IsPlain :=
    ⟨List.cons_ne_nil _ _, List.forall_mem_singleton.mpr ⟨c, rfl, h⟩⟩
  let half : NumberText := ⟨false, ['1'], some ['5'], none⟩
  let one : NumberText := ⟨false, ['1'], none, none⟩
  have float : half.tag? = some (.float ⟨false, 6755399441055744, -52⟩) := by
    have read : half.float? = some ⟨false, 6755399441055744, -52⟩ := by decide +kernel
    rw [NumberText.tag?, read]
    rfl
  have members : entriesOfMembers? 126 [([.char 'a'], .number half), ([.char 'b'], .number one)] =
      some [("a", .float ⟨false, 6755399441055744, -52⟩), ("b", .int 1)] := by
    rw [entriesOfMembers?, ofDocument?, float]
    rfl
  have sorted : Dictionary.Sorted
      [("a", Tag.float ⟨false, 6755399441055744, -52⟩), ("b", .int 1)] := by decide
  have object : ofDocument? maxDepth
      (.object [([.char 'a'], .number half), ([.char 'b'], .number one)]) =
        some (.compound [("a", .float ⟨false, 6755399441055744, -52⟩), ("b", .int 1)]) := by
    rw [maxDepth, ofDocument?, members, Option.map_some, sorted.ofList_eq]
  have short : half.ReadsAlike :=
    NumberText.readsAlike_of_short (fun whole => Option.some_ne_none _ whole.1) (by decide)
      (by decide) (by decide)
  have small : one.ReadsAlike := .int ⟨rfl, rfl⟩ (by decide) (by decide) (by decide)
  refine (relaxed_eq_of_isPlain rfl object (.object ?_ ?_)).1
  · exact List.forall_mem_cons.mpr
      ⟨letter (by decide), List.forall_mem_singleton.mpr (letter (by decide))⟩
  · exact List.forall_mem_cons.mpr
      ⟨.number short, List.forall_mem_singleton.mpr (.number small)⟩

theorem relaxed_eq_error_of_empty_key :
    ofJson? ['\x7b', '"', '"', ':', 'n', 'u', 'l', 'l', '\x7d'] =
        some (.compound [("", .null)]) ∧
      relaxed ['\x7b', '"', '"', ':', 'n', 'u', 'l', 'l', '\x7d'] = .error (.missingKey 3) := by
  have members : entriesOfMembers? 126 [([], .null)] = some [("", .null)] := rfl
  have read : read? ['\x7b', '"', '"', ':', 'n', 'u', 'l', 'l', '\x7d'] =
      some (.object [([], .null)]) := rfl
  refine ⟨?_, rfl⟩
  rw [ofJson?, read, Option.bind_some, maxDepth, ofDocument?, members]
  rfl

end ItemLexicon.Tag
