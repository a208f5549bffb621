import ItemLexicon.Proofs.LoadedRegistry
import ItemLexicon.Proofs.PatternLanguage
import ItemLexicon.Proofs.VariationProduct
import ItemLexicon.Proofs.Words

namespace ItemLexicon

theorem Text.isAlphanumeric_of_isBlank {c : Char} (h : isBlank c = true) :
    isAlphanumeric c = false := by
  have each : ∀ n ∈ blanks, isAlphanumeric (Char.ofNat n) = false := by decide +kernel
  have point := each c.toNat (mem_blanks_of_isBlank h)
  rwa [Char.ofNat_toNat] at point

/-- A letter that has no capital form, a digit, or an underscore. -/
def IsKeyChar (c : Char) : Prop := c = '_' ∨ (Text.isAlphanumeric c = true ∧ Text.IsSmall c)

instance : DecidablePred IsKeyChar := fun _ => inferInstanceAs (Decidable (_ ∨ _))

namespace IsKeyChar

variable {c : Char}

theorem isBlank_eq (h : IsKeyChar c) : Text.isBlank c = false := by
  rcases h with rfl | ⟨alphanumeric, -⟩
  · rfl
  · cases hb : Text.isBlank c with
    | false => rfl
    | true =>
      rw [Text.isAlphanumeric_of_isBlank hb] at alphanumeric
      cases alphanumeric

theorem isSmall (h : IsKeyChar c) : Text.IsSmall c := by
  rcases h with rfl | ⟨-, small⟩
  · decide
  · exact small

end IsKeyChar

namespace Request

theorem names_of_plain {pattern : String}
    (plain : ∀ c ∈ pattern.toList, Pattern.isGroupMark c = false)
    (named : Text.trim pattern.toList ≠ []) : names pattern = [pattern.toList] := by
  rw [names, if_neg (by simpa using named), Pattern.expand, ← Pattern.results,
    Pattern.results_of_plain plain]
  rfl

end Request

theorem Expansion.ofName_of_plain (find : String → Option VariationGroup) {name : List Char}
    (plain : IsPlain name) : ofName find name = ([(Noun.normal name, .empty)], []) := by
  have cut : slots find ⟨0, [], none⟩ (name ++ []) = ([.text name], []) := by
    rw [slots_plain 0 [] plain, slots, List.nil_append]
  rw [List.append_nil] at cut
  rw [ofName, cut]
  rfl

structure IsBareId (s : List Char) : Prop where
  named : ∃ c ∈ s, c ≠ '-'
  chars : ∀ c ∈ s, c = ':' ∨ IsKeyChar c

namespace IsBareId

variable {s : List Char}

theorem notMem (h : IsBareId s) {d : Char} (colon : d ≠ ':') (hd : ¬IsKeyChar d) : d ∉ s := by
  intro hs
  rcases h.chars d hs with hc | hc
  · exact colon hc
  · exact hd hc

theorem solid (h : IsBareId s) : ∀ c ∈ s, Text.isBlank c = false := by
  intro c hc
  rcases h.chars c hc with rfl | hc
  · rfl
  · exact hc.isBlank_eq

theorem ne_nil (h : IsBareId s) : s ≠ [] := by
  rintro rfl
  obtain ⟨c, hc, -⟩ := h.named
  cases hc

theorem trim_eq (h : IsBareId s) : Text.trim s = s := by
  cases s with
  | nil => rfl
  | cons c s =>
    exact (Text.IsTrim.mk (Text.trimStart_cons (h.solid c List.mem_cons_self) s)
      (Text.trimEnd_of_forall h.solid)).trim_eq

theorem idOf_eq (h : IsBareId s) : Variation.idOf s = some s := by
  rw [Variation.idOf, h.trim_eq]
  split
  · exact absurd rfl h.ne_nil
  · obtain ⟨c, hc, ne⟩ := h.named
    exact absurd (List.mem_singleton.mp hc) ne
  · rfl

theorem read_eq (h : IsBareId s) :
    Variation.read s = .ok ⟨some (String.ofList s), Variation.hyphenAt s, [], []⟩ := by
  have tags : Variation.cutTags s = .ok (s, []) := by
    rw [Variation.cutTags, Text.cut_of_notMem (h.notMem (by decide) (by decide +kernel))]
  have states : Variation.cutStates s = .ok (s, []) := by
    rw [Variation.cutStates, Text.cut_of_notMem (h.notMem (by decide) (by decide +kernel))]
  rw [Variation.read, h.trim_eq, tags]
  simp only [bind, Except.bind, states, h.idOf_eq]
  rfl

theorem items_eq (h : IsBareId s) : Request.items (String.ofList s) =
    [⟨some (String.ofList s), Variation.hyphenAt s, [], []⟩] := by
  have part : Segment.IsPart ',' s := by
    refine .of_plain fun c hc => ?_
    have apart : ∀ d ∈ [',', '\x7b', '[', '\x7d', ']'], c ≠ d := by
      intro d hd same
      have absent : ∀ d ∈ [',', '\x7b', '[', '\x7d', ']'], d ≠ ':' ∧ ¬IsKeyChar d :=
        Text.forall_of_all (by decide +kernel)
      subst same
      exact h.notMem (absent c hd).1 (absent c hd).2 hc
    simp only [List.forall_mem_cons] at apart
    obtain ⟨comma, left, bracket, right, closing, -⟩ := apart
    simp [Segment.isBracket, comma, left, bracket, right, closing]
  have whole : Segment.nonEmpty ',' s = [s] := by
    simp [Segment.nonEmpty, Segment.segments, part.split_eq, h.trim_eq, h.ne_nil]
  rw [Request.items, String.toList_ofList, whole, Loader.definitions, h.read_eq]
  rfl

theorem lowercase_eq {id : String} (h : IsBareId id.toList) : Text.lowercase id = id := by
  rw [Text.lowercase_eq_self_iff]
  intro c hc
  rcases h.chars c hc with rfl | hc
  · decide
  · exact hc.isSmall

end IsBareId

namespace Loader

theorem aliasName_regular {s : List Char} (unmarked : '¦' ∉ s) (ungendered : '@' ∉ s) :
    (aliasName (Text.spaced s ++ ['¦', 's'])).1 =
      if Text.words s = [] then none
      else some ⟨String.ofList (Text.spaced s), String.ofList (Text.spaced s ++ ['s']),
        .unspecified⟩ := by
  have fresh : ∀ c, c ≠ ' ' → c ∉ s → c ∉ Text.spaced s :=
    fun c space hs hc => (Text.mem_spaced hc).elim space hs
  have at' : '@' ∉ Text.spaced s ++ ['¦', 's'] := by
    simp [fresh '@' (by decide) ungendered]
  have marked : Text.IsWord ['¦', 's'] := ⟨List.cons_ne_nil _ _, Text.forall_of_all (by decide)⟩
  have plural : Text.IsWord ['s'] := ⟨List.cons_ne_nil _ _, Text.forall_of_all (by decide)⟩
  have gender : Noun.cutGender (Text.spaced s ++ ['¦', 's']) =
      (Text.spaced s ++ ['¦', 's'], none) := by
    rw [Noun.cutGender, Text.cutLast_eq_none_iff.mpr at',
      (Text.isTrim_spaced_append s marked).trim_eq]
  have forms := Noun.forms_regular (fresh '¦' (by decide) unmarked) (Text.isTrim_spaced s)
    (Text.isTrim_spaced_append s plural)
  simp only [aliasName, gender, Option.map_none, forms]
  rcases Text.spaced_cases s with ⟨none, empty⟩ | ⟨c, t, u, w, solid, word, start, -⟩
  · simp [none, empty]
  · have some' : Text.words s ≠ [] := by
      intro none
      rw [Text.spaced, none] at start
      cases start
    simp [some', start]

def missingForms (key : String) : AliasName :=
  let words := Text.spaced (Platform.replaceChar '_' ' ' key).toList
  ⟨String.ofList words, String.ofList (words ++ ['s']), .unspecified⟩

theorem keyOf_append {key : String} : keyOf ("minecraft:" ++ key) = key := by
  have cut : Text.cut ':' ("minecraft:" ++ key).toList = some ("minecraft".toList, key.toList) := by
    rw [String.toList_append]
    exact Text.cut_append_cons (show ':' ∉ "minecraft".toList by decide) key.toList
  rw [keyOf, cut]
  exact String.ofList_toList

theorem mem_replaced {key : String} {c : Char}
    (h : c ∈ (Platform.replaceChar '_' ' ' key).toList) : c = ' ' ∨ (c ∈ key.toList ∧ c ≠ '_') := by
  rw [Platform.replaceChar, String.toList_ofList, List.mem_map] at h
  obtain ⟨d, hd, rfl⟩ := h
  split
  · exact .inl rfl
  · rename_i ne
    exact .inr ⟨hd, ne⟩

section Key

variable {key : String} (hk : ∀ c ∈ key.toList, IsKeyChar c)

include hk

theorem words_replaced_eq_nil_iff : Text.words (Platform.replaceChar '_' ' ' key).toList = [] ↔
    key.toList.all (· = '_') = true := by
  rw [List.all_eq_true]
  simp only [decide_eq_true_eq]
  rw [Text.words_eq_nil_iff, Platform.replaceChar, String.toList_ofList, List.forall_mem_map]
  apply forall₂_congr
  intro c hc
  split
  · rename_i underscore
    exact iff_of_true rfl underscore
  · rename_i ne
    refine iff_of_false ?_ ne
    rw [(hk c hc).isBlank_eq]
    exact Bool.false_ne_true

theorem isBareId_append : IsBareId ("minecraft:" ++ key).toList := by
  rw [String.toList_append]
  refine ⟨⟨'m', List.mem_append_left _ (by decide), by decide⟩, fun c hc => ?_⟩
  rcases List.mem_append.mp hc with hc | hc
  · have chars : ∀ c ∈ "minecraft:".toList, c = ':' ∨ IsKeyChar c :=
      Text.forall_of_all (by decide +kernel)
    exact chars c hc
  · exact .inr (hk c hc)

theorem notMem_replaced {c : Char} (space : c ≠ ' ') (hc : ¬IsKeyChar c) :
    c ∉ (Platform.replaceChar '_' ' ' key).toList :=
  fun inside => (mem_replaced inside).elim space fun h => hc (hk c h.1)

omit hk in
theorem toList_missingName : (missingName ("minecraft:" ++ key)).toList =
    (Platform.replaceChar '_' ' ' key).toList ++ ['¦', 's'] := by
  rw [missingName, keyOf_append, String.toList_append, String.toList_ofList]
  rfl

theorem notMem_missingName {c : Char} (space : c ≠ ' ') (hc : ¬IsKeyChar c) (mark : c ≠ '¦')
    (plural : c ≠ 's') : c ∉ (missingName ("minecraft:" ++ key)).toList := by
  rw [toList_missingName, List.mem_append, not_or]
  exact ⟨notMem_replaced hk space hc, by simp [mark, plural]⟩

theorem isPlain_missingName : Expansion.IsPlain (missingName ("minecraft:" ++ key)).toList := by
  intro c hc
  have left : c ≠ '\x7b' := by
    rintro rfl
    exact notMem_missingName hk (by decide) (by decide +kernel) (by decide) (by decide) hc
  have right : c ≠ '\x7d' := by
    rintro rfl
    exact notMem_missingName hk (by decide) (by decide +kernel) (by decide) (by decide) hc
  simp [Expansion.isBrace, left, right]

theorem isGroupMark_of_mem_missingName {c : Char}
    (hc : c ∈ (missingName ("minecraft:" ++ key)).toList) : Pattern.isGroupMark c = false := by
  have apart : ∀ d ∈ ['[', ']', '(', ')'], c ≠ d := by
    rintro d hd rfl
    have marks : ∀ d ∈ ['[', ']', '(', ')'], d ≠ ' ' ∧ ¬IsKeyChar d ∧ d ≠ '¦' ∧ d ≠ 's' :=
      Text.forall_of_all (by decide +kernel)
    obtain ⟨space, other, mark, plural⟩ := marks c hd
    exact notMem_missingName hk space other mark plural hc
  simp only [List.forall_mem_cons] at apart
  obtain ⟨openOptional, closeOptional, openChoice, closeChoice, -⟩ := apart
  simp [Pattern.isGroupMark, Pattern.isCloser, openOptional, closeOptional, openChoice,
    closeChoice]

theorem registrations_missing (find : Groups) :
    (Request.define (missingName ("minecraft:" ++ key)) ("minecraft:" ++ key)).registrations find =
      if key.toList.all (· = '_') then []
      else [⟨missingForms key, "minecraft:" ++ key, [], []⟩] := by
  have marked : Text.IsWord ['¦', 's'] := ⟨List.cons_ne_nil _ _, Text.forall_of_all (by decide)⟩
  have named : Text.trim (missingName ("minecraft:" ++ key)).toList ≠ [] := by
    rw [toList_missingName]
    exact Text.trim_append_word_ne_nil _ marked
  have unmarked := notMem_replaced hk (c := '¦') (by decide) (by decide +kernel)
  have ungendered := notMem_replaced hk (c := '@') (by decide) (by decide +kernel)
  have items := (isBareId_append hk).items_eq
  rw [String.ofList_toList] at items
  -- The one definition is the id, and the one name is the key with spaces behind which only the
  -- mark of the plural stands.
  rw [Request.registrations, items,
    Request.names_of_plain (fun _ => isGroupMark_of_mem_missingName hk) named,
    List.flatMap_singleton, Expansion.ofName_of_plain find (isPlain_missingName hk),
    List.flatMap_singleton, toList_missingName,
    Noun.normal_append_mark unmarked (by decide) (Text.forall_of_all (by decide)), ← Text.spaced,
    Request.ofExpanded, aliasName_regular unmarked ungendered]
  simp only [words_replaced_eq_nil_iff hk]
  by_cases blank : key.toList.all (· = '_') = true
  · rw [if_pos blank, if_pos blank]
  · rw [if_neg blank, if_neg blank]
    simp only [List.flatMap_singleton, Request.ofItem, Variation.merge, Variation.insertId,
      Variation.empty, (isBareId_append hk).lowercase_eq]
    rfl

end Key

end Loader

end ItemLexicon
