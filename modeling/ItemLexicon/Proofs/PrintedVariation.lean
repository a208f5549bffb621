import ItemLexicon.Proofs.ItemLists
import ItemLexicon.Proofs.PrintedTags

namespace ItemLexicon

namespace States

structure IsField (s : List Char) : Prop where
  trim : Text.IsTrim s
  plain : ∀ c ∈ s, c ≠ ',' ∧ Segment.isBracket c = false

instance (s : List Char) : Decidable (IsField s) :=
  decidable_of_iff
    (Text.IsTrim s ∧ s.all (fun c => decide (c ≠ ',' ∧ Segment.isBracket c = false)) = true)
    ⟨fun h => ⟨h.1, Text.forall_of_all h.2⟩, fun h => ⟨h.1, by simpa using h.2⟩⟩

structure IsEntry (e : String × String) : Prop where
  key : IsField e.1.toList
  value : IsField e.2.toList
  keyless : '=' ∉ e.1.toList

def entryText (e : String × String) : List Char := e.1.toList ++ '=' :: e.2.toList

def text (states : States) : List Char := Text.join [','] (states.map entryText)

theorem IsEntry.plain {e : String × String} (h : IsEntry e) :
    ∀ c ∈ entryText e, c ≠ ',' ∧ Segment.isBracket c = false :=
  List.forall_mem_append.mpr ⟨h.key.plain, List.forall_mem_cons.mpr ⟨by decide, h.value.plain⟩⟩

theorem IsEntry.isTrim {e : String × String} (h : IsEntry e) : Text.IsTrim (entryText e) :=
  h.key.trim.append_cons rfl h.value.trim.finish

theorem addAll_map_entryText {es : States} (h : ∀ e ∈ es, IsEntry e) (states : States) :
    addAll states (es.map entryText) = .ok (Dictionary.merge states es) := by
  induction es generalizing states with
  | nil => rfl
  | cons e es ih =>
    obtain ⟨entry, rest⟩ := List.forall_mem_cons.mp h
    rw [List.map_cons, addAll, entryText, Text.cut_append_cons entry.keyless]
    dsimp only
    rw [entry.key.trim.trim_eq, entry.value.trim.trim_eq, String.ofList_toList,
      String.ofList_toList, ih rest]
    rfl

theorem read_text {states : States} (sorted : Dictionary.Sorted states)
    (h : ∀ e ∈ states, IsEntry e) (ne : states ≠ []) : read (text states) = .ok states := by
  have parts : Segment.segments ',' (text states) = states.map entryText :=
    Segment.segments_join (List.forall_mem_nil _) rfl rfl (by simpa using ne)
      (List.forall_mem_map.mpr fun e he => .of_plain (h e he).plain)
      (List.forall_mem_map.mpr fun e he => (h e he).isTrim)
  have filled : Segment.nonEmpty ',' (text states) = states.map entryText := by
    rw [Segment.nonEmpty, parts]
    refine List.filter_eq_self.mpr (List.forall_mem_map.mpr fun e _ => ?_)
    simp [entryText]
  rw [read, filled, addAll_map_entryText h]
  exact congrArg Except.ok sorted.ofList_eq

end States

namespace Variation

/-- An id that is not taken for none, nor for more than an id. -/
structure IsId (id : List Char) : Prop where
  trim : Text.IsTrim id
  ne_nil : id ≠ []
  ne_hyphen : id ≠ ['-']
  braceless : '\x7b' ∉ id
  bracketless : '[' ∉ id

def statesText (states : States) : List Char :=
  if states = [] then [] else '[' :: (states.text ++ [']'])

def tagsText (tags : Tags) : List Char := if tags.isEmpty then [] else ' ' :: tags.json.toList

/-- A definition, where a hyphen stands for no id, and states and tags are left out where there are
none. -/
def spell (id : Option String) (states : States) (tags : Tags) : List Char :=
  (id.getD "-").toList ++ statesText states ++ tagsText tags

section Parts

variable {id : Option String} {states : States} {tags : Tags}

theorem idOf_getD (h : ∀ i ∈ id, IsId i.toList) :
    idOf (id.getD "-").toList = id.map String.toList := by
  cases id with
  | none => rfl
  | some i =>
    have plain := h i rfl
    rw [Option.getD_some, idOf, plain.trim.trim_eq]
    split
    · exact absurd ‹_› plain.ne_nil
    · exact absurd ‹_› plain.ne_hyphen
    · rfl

theorem notMem_getD {c : Char} (ne : c ≠ '-') (h : ∀ i ∈ id, c ∉ i.toList) :
    c ∉ (id.getD "-").toList := by
  cases id with
  | none => exact fun hc => ne (List.mem_singleton.mp hc)
  | some i => exact h i rfl

theorem isTrim_getD (h : ∀ i ∈ id, IsId i.toList) :
    Text.IsTrim (id.getD "-").toList ∧ (id.getD "-").toList ≠ [] := by
  cases id with
  | none => decide
  | some i => exact ⟨(h i rfl).trim, (h i rfl).ne_nil⟩

theorem brace_notMem_statesText (h : ∀ e ∈ states, States.IsEntry e) :
    '\x7b' ∉ statesText states := by
  rw [statesText]
  split
  · exact List.not_mem_nil
  · intro hc
    have inside : '\x7b' ∈ states.text := by simpa using hc
    rcases Text.mem_join inside with hc | ⟨p, hp, hc⟩
    · cases List.mem_singleton.mp hc
    · obtain ⟨e, he, rfl⟩ := List.mem_map.mp hp
      cases ((h e he).plain _ hc).2

theorem isTrim_front {s : List Char} (hs : Text.IsTrim s) (states : States) :
    Text.IsTrim (s ++ statesText states) := by
  rw [statesText]
  split
  · rwa [List.append_nil]
  · refine hs.append_cons rfl ?_
    exact Text.trimEnd_append (t := [']']) rfl (List.cons_ne_nil _ _) _

theorem cutStates_front {s : List Char} (ne : s ≠ []) (absent : '[' ∉ s)
    (sorted : Dictionary.Sorted states) (h : ∀ e ∈ states, States.IsEntry e) :
    cutStates (s ++ statesText states) = .ok (s, states) := by
  rw [statesText]
  split
  · rename_i none
    rw [List.append_nil, cutStates, Text.cut_of_notMem absent, none]
  · rename_i filled
    obtain ⟨c, s, rfl⟩ := List.exists_cons_of_ne_nil ne
    have suffix : Text.dropSuffix? [']'] (states.text ++ [']']) = some states.text :=
      Text.dropSuffix?_eq_some_iff.mpr rfl
    rw [cutStates, Text.cut_append_cons absent]
    dsimp only
    rw [suffix]
    dsimp only
    rw [States.read_text sorted h filled]
    rfl

theorem exists_concat_jsonEntries (es : Tags) : ∃ w, Tag.jsonEntries es = w ++ ['\x7d'] := by
  induction es with
  | nil => exact ⟨[], by rw [Tag.jsonEntries]; rfl⟩
  | cons e es ih =>
    obtain ⟨k, t⟩ := e
    cases es with
    | nil => exact ⟨Tag.quoted k.toList ++ ':' :: t.json, by simp [Tag.jsonEntries]⟩
    | cons e' es =>
      obtain ⟨w, form⟩ := ih
      exact ⟨Tag.quoted k.toList ++ ':' :: (t.json ++ ',' :: w), by simp [Tag.jsonEntries, form]⟩

theorem cutTags_append {s b : List Char} (ne : s ≠ []) (absent : '\x7b' ∉ s)
    (read : Tags.read (String.ofList ('\x7b' :: b)) = .ok tags) :
    cutTags (s ++ '\x7b' :: b) = .ok (Text.trimEnd s, tags) := by
  obtain ⟨c, s, rfl⟩ := List.exists_cons_of_ne_nil ne
  rw [cutTags, Text.cut_append_cons absent]
  dsimp only
  rw [read]

theorem cutTags_trim_spell {s : List Char} (hs : Text.IsTrim s) (ne : s ≠ []) (absent : '\x7b' ∉ s)
    (ht : Tag.IsStored Tag.maxDepth (.compound tags)) :
    cutTags (Text.trim (s ++ tagsText tags)) = .ok (s, tags) := by
  rw [tagsText]
  split
  · rename_i none
    rw [List.append_nil, hs.trim_eq, cutTags, Text.cut_of_notMem absent, List.isEmpty_iff.mp none]
  · obtain ⟨w, form⟩ := exists_concat_jsonEntries tags
    have block : tags.json.toList = '\x7b' :: Tag.jsonEntries tags := by
      rw [Tags.json, String.toList_ofList, Tag.json]
    have back : Tags.read (String.ofList ('\x7b' :: Tag.jsonEntries tags)) = .ok tags := by
      rw [← block, String.ofList_toList, Tags.read_json ht]
    have finish : Text.trimEnd (' ' :: '\x7b' :: Tag.jsonEntries tags) =
        ' ' :: '\x7b' :: Tag.jsonEntries tags := by
      rw [form]
      exact Text.trimEnd_append (t := ['\x7d']) rfl (List.cons_ne_nil _ _) (' ' :: '\x7b' :: w)
    have spaced : s ++ ' ' :: '\x7b' :: Tag.jsonEntries tags =
        (s ++ [' ']) ++ '\x7b' :: Tag.jsonEntries tags := by
      rw [List.append_assoc, List.singleton_append]
    have absent' : '\x7b' ∉ s ++ [' '] := by simp [absent]
    rw [block, (hs.append ne finish (List.cons_ne_nil _ _)).trim_eq, spaced,
      cutTags_append (by simp) absent' back, Text.trimEnd_concat_blank rfl, hs.finish]

/-- Every definition is read back as it was written, with the first hyphen of its id as insertion
point. -/
theorem read_spell (hid : ∀ i ∈ id, IsId i.toList) (sorted : Dictionary.Sorted states)
    (hs : ∀ e ∈ states, States.IsEntry e) (ht : Tag.IsStored Tag.maxDepth (.compound tags)) :
    ∃ point, read (spell id states tags) = .ok ⟨id, point, tags, states⟩ ∧
      ∀ n, point = some n ↔ ∃ i before after, id = some i ∧ i.toList = before ++ '-' :: after ∧
        '-' ∉ before ∧ Text.byteLength before = n := by
  obtain ⟨trim, ne⟩ := isTrim_getD hid
  have bracket := notMem_getD (by decide) fun i hi => (hid i hi).bracketless
  have brace : '\x7b' ∉ (id.getD "-").toList ++ statesText states := by
    rw [List.mem_append, not_or]
    exact ⟨notMem_getD (by decide) fun i hi => (hid i hi).braceless, brace_notMem_statesText hs⟩
  have name := idOf_getD hid
  refine ⟨id.bind fun i => hyphenAt i.toList, ?_, fun n => ?_⟩
  · refine read_eq_ok_iff.mpr ⟨_, tags, _, states,
      cutTags_trim_spell (isTrim_front trim states) (by simp [ne]) brace ht,
      cutStates_front ne bracket sorted hs, ?_⟩
    rw [name]
    cases id <;> simp
  · simp only [Option.bind_eq_some_iff, hyphenAt_eq_some_iff]
    constructor
    · rintro ⟨i, rfl, before, after, rest⟩
      exact ⟨i, before, after, rfl, rest⟩
    · rintro ⟨i, before, after, rfl, rest⟩
      exact ⟨i, rfl, before, after, rest⟩

end Parts

theorem read_spell_of_oak :
    let half : Binary64 := ⟨false, 6755399441055744, -52⟩
    let states : States := [("half", ""), ("lit", "true")]
    let tags : Tags :=
      [("a", .list [.int (-1), .text "]\x7d"]), ("b", .compound [("x", .float half)])]
    spell (some "oak_-") states tags =
        "oak_-[half=,lit=true] \x7b\"a\":[-1,\"]\x7d\"],\"b\":\x7b\"x\":1.5\x7d\x7d".toList ∧
      (∀ i ∈ some "oak_-", IsId i.toList) ∧ Dictionary.Sorted states ∧
      (∀ e ∈ states, States.IsEntry e) ∧ Tag.IsStored Tag.maxDepth (.compound tags) ∧
      read (spell (some "oak_-") states tags) = .ok ⟨some "oak_-", some 4, tags, states⟩ := by
  intro half states tags
  have isId : ∀ i ∈ some "oak_-", IsId i.toList := by
    rintro i ⟨⟩
    exact ⟨by decide, by decide, by decide, by decide, by decide⟩
  have sorted : Dictionary.Sorted states := by decide
  have entries : ∀ e ∈ states, States.IsEntry e :=
    List.forall_mem_cons.mpr ⟨⟨by decide, by decide, by decide⟩,
      List.forall_mem_singleton.mpr ⟨by decide, by decide, by decide⟩⟩
  have text : half.text = ['1', '.', '5'] := by decide +kernel
  have number : Tag.IsStored 125 (.float half) := .float (by rw [text]; rfl)
  have stored : Tag.IsStored Tag.maxDepth (.compound tags) := by
    refine .compound (by decide) (List.forall_mem_cons.mpr ⟨.list ?_, List.forall_mem_singleton.mpr
      (.compound (by decide) (List.forall_mem_singleton.mpr number))⟩)
    exact List.forall_mem_cons.mpr ⟨.int (by decide) (by decide),
      List.forall_mem_singleton.mpr (.text _)⟩
  obtain ⟨point, read, place⟩ := read_spell isId sorted entries stored
  have first : point = some 4 :=
    (place 4).mpr ⟨"oak_-", "oak_".toList, [], rfl, rfl, by decide, rfl⟩
  refine ⟨by decide +kernel, isId, sorted, entries, stored, ?_⟩
  rw [read, first]

end Variation

end ItemLexicon
