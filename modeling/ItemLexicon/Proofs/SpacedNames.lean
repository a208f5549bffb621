import ItemLexicon.Proofs.RegisteredNames
import ItemLexicon.Proofs.VariationProduct
import Mathlib.Data.List.Chain

/-! Blanks in registered names.  No step of making a name leaves a blank but single spaces. -/

namespace ItemLexicon

namespace Text

structure IsSpaced (s : List Char) : Prop where
  space : ∀ c ∈ s, isBlank c = true → c = ' '
  single : s.IsChain fun c d => isBlank c = true → isBlank d = false

namespace IsSpaced

variable {s t : List Char}

theorem nil : IsSpaced [] := ⟨nofun, .nil⟩

theorem mono (h : IsSpaced s) (piece : t <:+: s) : IsSpaced t where
  space c hc := h.space c (piece.subset hc)
  single := h.single.infix piece

theorem append (hs : IsSpaced s) (ht : IsSpaced t) (last : ∀ c ∈ s.getLast?, isBlank c = false) :
    IsSpaced (s ++ t) where
  space c hc := (List.mem_append.mp hc).elim (hs.space c) (ht.space c)
  single := by
    refine hs.single.append ht.single fun c hc _ _ blank => ?_
    rw [last c hc] at blank
    cases blank

theorem cons_space (h : IsSpaced s) (first : ∀ c ∈ s.head?, isBlank c = false) :
    IsSpaced (' ' :: s) where
  space := List.forall_mem_cons.mpr ⟨fun _ => rfl, h.space⟩
  single := h.single.cons fun c hc _ => first c hc

theorem cons_solid {c : Char} (hc : isBlank c = false) (h : IsSpaced s) : IsSpaced (c :: s) where
  space := List.forall_mem_cons.mpr ⟨fun blank => absurd (hc.symm.trans blank) nofun, h.space⟩
  single := h.single.cons fun _ _ blank => absurd (hc.symm.trans blank) nofun

theorem of_solid (h : ∀ c ∈ s, isBlank c = false) : IsSpaced s := by
  induction s with
  | nil => exact .nil
  | cons c s ih =>
    obtain ⟨hc, rest⟩ := List.forall_mem_cons.mp h
    exact (ih rest).cons_solid hc

end IsSpaced

theorem isSpaced_join {ps : List (List Char)} (words : ∀ p ∈ ps, IsWord p) :
    IsSpaced (join [' '] ps) ∧ ∀ c ∈ (join [' '] ps).head?, isBlank c = false := by
  induction ps with
  | nil => exact ⟨.nil, nofun⟩
  | cons p ps ih =>
    obtain ⟨word, words⟩ := List.forall_mem_cons.mp words
    obtain ⟨first, last⟩ := isTrim_iff.mp word.isTrim
    cases ps with
    | nil => exact ⟨.of_solid word.solid, first⟩
    | cons q ps =>
      obtain ⟨rest, head⟩ := ih words
      rw [join, List.append_assoc, List.singleton_append]
      refine ⟨(IsSpaced.of_solid word.solid).append (rest.cons_space head) last, ?_⟩
      obtain ⟨c, t, rfl⟩ := List.exists_cons_of_ne_nil word.ne_nil
      exact first

theorem isSpaced_spaced (s : List Char) : IsSpaced (spaced s) :=
  (isSpaced_join fun _ hp => (isWord_of_mem_words hp).1).1

theorem isBlank_head_lowerAfter {s : List Char} (first : ∀ c ∈ s.head?, isBlank c = false)
    (before : List Char) : ∀ c ∈ (lowerAfter before s).head?, isBlank c = false := by
  cases s with
  | nil => exact nofun
  | cons c s =>
    obtain ⟨l, ne, small, eq⟩ := exists_lowerAfter_cons before c s
    obtain ⟨d, l, rfl⟩ := List.exists_cons_of_ne_nil ne
    intro e he
    rw [eq, List.cons_append, List.head?_cons, Option.mem_some] at he
    rw [← he, (small d List.mem_cons_self).2]
    exact first c rfl

theorem IsSpaced.lower {s : List Char} (h : IsSpaced s) : IsSpaced (lower s) := by
  rw [Text.lower]
  generalize ([] : List Char) = before
  induction s generalizing before with
  | nil => exact .nil
  | cons c s ih =>
    have rest := ih (h.mono (List.suffix_cons c s).isInfix) (c :: before)
    cases hc : isBlank c with
    | true =>
      obtain rfl := h.space c List.mem_cons_self hc
      have first : ∀ d ∈ s.head?, isBlank d = false :=
        fun d hd => (List.isChain_cons.mp h.single).1 d hd hc
      exact rest.cons_space (isBlank_head_lowerAfter first _)
    | false =>
      obtain ⟨l, -, small, eq⟩ := exists_lowerAfter_cons before c s
      have solid : ∀ d ∈ l, isBlank d = false := fun d hd => (small d hd).2.trans hc
      rw [eq]
      exact (IsSpaced.of_solid solid).append rest fun d hd => solid d (List.mem_of_getLast? hd)

end Text

namespace Noun

/-- A name with single spaces, none of them in front of a mark. -/
structure IsNormal (n : List Char) : Prop where
  spaced : Text.IsSpaced n
  tight : n.IsChain fun c d => Text.isBlank c = true → d ≠ pluralMark

namespace IsNormal

variable {n m : List Char}

theorem mono (h : IsNormal n) (piece : m <:+: n) : IsNormal m where
  spaced := h.spaced.mono piece
  tight := h.tight.infix piece

theorem cons_solid {c : Char} (hc : Text.isBlank c = false) (h : IsNormal n) :
    IsNormal (c :: n) where
  spaced := h.spaced.cons_solid hc
  tight := h.tight.cons fun _ _ blank => absurd (hc.symm.trans blank) nofun

theorem cons_space (h : IsNormal n)
    (first : ∀ c ∈ n.head?, Text.isBlank c = false ∧ c ≠ pluralMark) : IsNormal (' ' :: n) where
  spaced := h.spaced.cons_space fun c hc => (first c hc).1
  tight := h.tight.cons fun c hc _ => (first c hc).2

end IsNormal

theorem head?_tightenMarks {s : List Char} (first : ∀ c ∈ s.head?, Text.isBlank c = false) :
    (tightenMarks s).head? = s.head? := by
  cases s with
  | nil => rfl
  | cons c s =>
    rw [tightenMarks_cons, List.head?_cons, List.head?_cons]
    rintro ⟨rfl, -⟩
    cases first ' ' rfl

theorem isNormal_tightenMarks {s : List Char} (h : Text.IsSpaced s) :
    IsNormal (tightenMarks s) := by
  induction s using tightenMarks.induct with
  | case1 => exact ⟨.nil, .nil⟩
  | case2 s ih =>
    have rest : s <:+: ' ' :: '¦' :: s := ⟨[' ', '¦'], [], by simp⟩
    rw [tightenMarks]
    exact (ih (h.mono rest)).cons_solid rfl
  | case3 c s apart ih =>
    have rest := ih (h.mono (List.suffix_cons c s).isInfix)
    rw [tightenMarks]
    · cases hc : Text.isBlank c with
      | false => exact rest.cons_solid hc
      | true =>
        -- what stands behind a blank that stays is no blank, so it stays in front of the rest
        obtain rfl := h.space c List.mem_cons_self hc
        have first : ∀ d ∈ s.head?, Text.isBlank d = false :=
          fun d hd => (List.isChain_cons.mp h.single).1 d hd hc
        refine rest.cons_space fun d hd => ?_
        rw [head?_tightenMarks first] at hd
        refine ⟨first d hd, ?_⟩
        rintro rfl
        obtain ⟨t, ht⟩ := List.head?_eq_some_iff.mp hd
        exact apart t rfl ht
    · exact apart

theorem isNormal_normal (s : List Char) : IsNormal (normal s) :=
  isNormal_tightenMarks (Text.isSpaced_spaced s)

theorem isInfix_cutGender (n : List Char) : (cutGender n).1 <:+: n := by
  rw [cutGender]
  cases parts : Text.cutLast '@' n with
  | none => exact Text.trim_isInfix n
  | some sides =>
    obtain ⟨name, token⟩ := sides
    obtain ⟨rfl, -⟩ := Text.cutLast_eq_some_iff.mp parts
    exact (Text.trim_isInfix name).trans (List.prefix_append name _).isInfix

theorem IsNormal.forms {n : List Char} (h : IsNormal n) :
    Text.IsSpaced (forms n).1 ∧ Text.IsSpaced (forms n).2 := by
  rw [Noun.forms]
  cases parts : Text.cut pluralMark n with
  | none => exact ⟨h.spaced.mono (Text.trim_isInfix n), h.spaced.mono (Text.trim_isInfix n)⟩
  | some sides =>
    obtain ⟨base, rest⟩ := sides
    obtain ⟨rfl, -⟩ := Text.cut_eq_some_iff.mp parts
    have last : ∀ c ∈ base.getLast?, Text.isBlank c = false := by
      intro c hc
      have mark := (List.isChain_append.mp h.tight).2.2 c hc pluralMark rfl
      exact Bool.eq_false_iff.mpr fun blank => mark blank rfl
    have stem := (h.mono (List.prefix_append base _).isInfix).spaced
    have ending : rest <:+: base ++ pluralMark :: rest := ⟨base ++ [pluralMark], [], by simp⟩
    have behind := (h.mono ending).spaced
    have cut := behind.mono (List.dropWhile_suffix (!Text.isBlank ·)).isInfix
    exact ⟨(stem.append cut last).mono (Text.trim_isInfix _),
      (stem.append behind last).mono (Text.trim_isInfix _)⟩

end Noun

theorem Request.isNormal_of_mem_expanded {find : Groups} {q : Request} {n : List Char}
    (h : n ∈ q.expanded find) : Noun.IsNormal n := by
  cases q with
  | group name g => cases h
  | define pattern data =>
    obtain ⟨name, -, h⟩ := List.mem_flatMap.mp h
    obtain ⟨named, mem, rfl⟩ := List.mem_map.mp h
    obtain ⟨s, normal⟩ := Expansion.exists_normal_of_mem_ofName mem
    rw [normal]
    exact Noun.isNormal_normal s

namespace Registry.Loaded

theorem isSpaced {r : Registry} (h : r.Loaded) {s : Scope} (hs : s ∈ r.scopes) {key : String}
    (hk : key ∈ s.names.keys) : Text.IsTidy key.toList ∧ Text.IsSpaced key.toList := by
  obtain ⟨n, hn⟩ := Option.ne_none_iff_exists'.mp (Scope.mem_names_iff.mp hk)
  obtain ⟨c, asked, form⟩ := h.isAsked s hs key n hn
  obtain ⟨_, _, n, hn, named⟩ := asked.exists_aliasName
  have cut := (Request.isNormal_of_mem_expanded hn).mono (Noun.isInfix_cutGender n)
  refine ⟨Loader.isTidy_of_aliasName named form, ?_⟩
  rcases ((Loader.forms_of_aliasName named).2 key).mp form with eq | eq
  · rw [eq]
    exact cut.forms.1.lower
  · rw [eq]
    exact cut.forms.2.lower

end Registry.Loaded

namespace Loader

/-- Names that a text registers have no blanks but single spaces, none of them at an end, and stand
in small letters. -/
theorem names_text_isSpaced (l : Loader) (loaded : l.registry.Loaded) (source : Option String)
    (text : String) : ∀ s ∈ (l.text source text).registry.scopes, ∀ key ∈ s.names.keys,
      Text.IsTrim key.toList ∧ Text.IsSpaced key.toList ∧ Text.lowercase key = key := by
  intro s hs key hk
  obtain ⟨tidy, spaced⟩ := (loaded.text source text).isSpaced hs hk
  exact ⟨tidy.trim, spaced, Text.lowercase_eq_self_iff.mpr tidy.small⟩

theorem names_text_isSpaced_of_boats :
    let p : Platform := ⟨⟨[1, 20, 4]⟩, false, [⟨"minecraft:oak_boat", false, 0⟩], []⟩
    let l := Loader.start (.empty p) []
    let text := "s:\n  {w}:\n    Birch\t¦ES = -\n  {w} \u2003Boat ¦s\u00a0ON  Ice @ an = oak_boat\n"
    let r := (l.text none text).registry
    r.scope.names.keys = ["birch boat¦s on ice", "birches boat¦s on ice"] ∧
      ∀ key ∈ r.scope.names.keys,
        Text.IsTrim key.toList ∧ Text.IsSpaced key.toList ∧ Text.lowercase key = key := by
  intro p l text r
  exact ⟨by decide +kernel, names_text_isSpaced l (.empty p) none text r.scope List.mem_cons_self⟩

end Loader

end ItemLexicon
