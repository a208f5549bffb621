import ItemLexicon.Proofs.SpacedNames
import ItemLexicon.Proofs.Reloading

namespace ItemLexicon

namespace Noun

/-- A name with one gender token at most, and one mark of the plural at most in front of it. -/
def IsMarkedOnce (n : List Char) : Prop :=
  n.count '@' ≤ 1 ∧ (cutGender n).1.count pluralMark ≤ 1

instance : DecidablePred IsMarkedOnce := fun _ => inferInstanceAs (Decidable (_ ∧ _))

theorem mem_cutGender_iff {n : List Char} : '@' ∈ (cutGender n).1 ↔ 1 < n.count '@' := by
  rw [cutGender]
  cases parts : Text.cutLast '@' n with
  | none =>
    have absent := Text.cutLast_eq_none_iff.mp parts
    have solid : Text.isBlank '@' = false := rfl
    simp [Text.mem_trim_iff solid, absent, List.count_eq_zero_of_not_mem absent]
  | some sides =>
    obtain ⟨name, token⟩ := sides
    obtain ⟨rfl, absent⟩ := Text.cutLast_eq_some_iff.mp parts
    rw [Text.mem_trim_iff rfl, List.count_append, List.count_cons_self,
      List.count_eq_zero_of_not_mem absent, ← List.count_pos_iff]
    omega

theorem mem_plural_of_mem_singular {s : List Char} {c : Char} (hc : Text.isBlank c = false)
    (h : c ∈ (forms s).1) : c ∈ (forms s).2 := by
  rw [forms] at h ⊢
  split at h
  · exact h
  · rw [Text.mem_trim_iff hc, List.mem_append] at h ⊢
    exact h.imp_right fun h => (List.dropWhile_sublist _).subset h

theorem mem_plural_iff {s : List Char} {c : Char} (hc : Text.isBlank c = false)
    (other : c ≠ pluralMark) : c ∈ (forms s).2 ↔ c ∈ s := by
  rw [forms]
  cases parts : Text.cut pluralMark s with
  | none => exact Text.mem_trim_iff hc
  | some sides =>
    obtain ⟨base, rest⟩ := sides
    obtain ⟨rfl, -⟩ := Text.cut_eq_some_iff.mp parts
    simp [Text.mem_trim_iff hc, other]

theorem mark_mem_plural_iff {s : List Char} :
    pluralMark ∈ (forms s).2 ↔ 1 < s.count pluralMark := by
  have solid : Text.isBlank pluralMark = false := rfl
  rw [forms]
  cases parts : Text.cut pluralMark s with
  | none =>
    have absent := Text.cut_eq_none_iff.mp parts
    simp [Text.mem_trim_iff solid, absent, List.count_eq_zero_of_not_mem absent]
  | some sides =>
    obtain ⟨base, rest⟩ := sides
    obtain ⟨rfl, absent⟩ := Text.cut_eq_some_iff.mp parts
    rw [Text.mem_trim_iff solid, List.mem_append, or_iff_right absent, List.count_append,
      List.count_cons_self, List.count_eq_zero_of_not_mem absent, ← List.count_pos_iff]
    omega

theorem isMarkedOnce_iff {n : List Char} : IsMarkedOnce n ↔
    pluralMark ∉ (forms (cutGender n).1).2 ∧ '@' ∉ (forms (cutGender n).1).2 := by
  have sign : Text.isBlank '@' = false ∧ '@' ≠ pluralMark := by decide
  rw [mark_mem_plural_iff, mem_plural_iff sign.1 sign.2, mem_cutGender_iff, Nat.not_lt, Nat.not_lt,
    IsMarkedOnce, and_comm]

end Noun

def IsUnmarked (key : String) : Prop := Noun.pluralMark ∉ key.toList ∧ '@' ∉ key.toList

instance : DecidablePred IsUnmarked := fun _ => inferInstanceAs (Decidable (_ ∧ _))

theorem isUnmarked_of_lower {key : String} {s : List Char} (eq : key.toList = Text.lower s) :
    IsUnmarked key ↔ Noun.pluralMark ∉ s ∧ '@' ∉ s := by
  have signs : Noun.pluralMark ∈ Text.caselessSigns ∧ '@' ∈ Text.caselessSigns := by decide
  rw [IsUnmarked, eq, Text.mem_lower_iff signs.1, Text.mem_lower_iff signs.2]

theorem Loader.isUnmarked_iff {expanded : List Char} {name : AliasName}
    (h : (aliasName expanded).1 = some name) :
    (∀ key, name.HasKey key → IsUnmarked key) ↔ Noun.IsMarkedOnce expanded := by
  obtain ⟨-, keys⟩ := forms_of_aliasName h
  rw [Noun.isMarkedOnce_iff]
  constructor
  · intro unmarked
    have form := (keys (String.ofList (Text.lower _))).mpr (.inr String.toList_ofList)
    exact (isUnmarked_of_lower String.toList_ofList).mp (unmarked _ form)
  · rintro ⟨noMark, noSign⟩ key form
    rcases (keys key).mp form with eq | eq
    · refine (isUnmarked_of_lower eq).mpr ⟨fun mark => noMark ?_, fun sign => noSign ?_⟩
      · exact Noun.mem_plural_of_mem_singular rfl mark
      · exact Noun.mem_plural_of_mem_singular rfl sign
    · exact (isUnmarked_of_lower eq).mpr ⟨noMark, noSign⟩

namespace Request

def allExpanded (find : Groups) : List Request → List (List Char)
  | [] => []
  | q :: qs => q.expanded find ++ allExpanded (q.update find) qs

theorem exists_aliasName_of_mem_all {find : Groups} {qs : List Request} {c : Registration}
    (h : c ∈ allRegistrations find qs) :
    ∃ n ∈ allExpanded find qs, (Loader.aliasName n).1 = some c.name := by
  induction qs generalizing find with
  | nil => cases h
  | cons q qs ih =>
    rw [allRegistrations] at h
    rcases List.mem_append.mp h with h | h
    · obtain ⟨n, hn, named⟩ := exists_aliasName_of_mem h
      exact ⟨n, List.mem_append_left _ hn, named⟩
    · obtain ⟨n, hn, named⟩ := ih h
      exact ⟨n, List.mem_append_right _ hn, named⟩

end Request

namespace Registry

theorem knows_withGroups {r : Registry} {gs : Dictionary VariationGroup} {name : AliasName} :
    (r.withGroups gs).Knows name ↔ r.Knows name := Iff.rfl

namespace TopLevel

variable {r : Registry}

theorem exists_of_handle? (h : r.TopLevel) {cs : List Registration} {key : String}
    (new : r.scope.handle? key = none) (bound : (r.registerAll cs).scope.handle? key ≠ none) :
    ∃ c ∈ cs, c.name.HasKey key ∧ (r.registerAll cs).Knows c.name := by
  induction cs generalizing r with
  | nil => exact absurd new bound
  | cons c cs ih =>
    by_cases still : (r.register c).scope.handle? key = none
    · obtain ⟨d, hd, form, known⟩ := ih (h.register c) still bound
      exact ⟨d, List.mem_cons_of_mem c hd, form, known⟩
    · rw [h.handle?_register_eq_none_iff, and_iff_right new, not_not] at still
      exact ⟨c, List.mem_cons_self, still.2,
        (h.register c).knows_registerAll (h.knows_register still.1) cs⟩

theorem isUnmarked_iff (h : r.TopLevel) (nameless : ∀ key, r.scope.handle? key = none)
    {find : Groups} {qs : List Request} {r' : Registry}
    (served : ∃ gs, r' = (r.registerAll (Request.allRegistrations find qs)).withGroups gs) :
    (∀ key ∈ r'.scope.names.keys, IsUnmarked key) ↔
      ∀ n ∈ Request.allExpanded find qs, ∀ name, (Loader.aliasName n).1 = some name →
        r'.Knows name → Noun.IsMarkedOnce n := by
  obtain ⟨gs, rfl⟩ := served
  have top := h.registerAll (Request.allRegistrations find qs)
  have bound : ∀ key, key ∈ ((r.registerAll _).withGroups gs).scope.names.keys ↔
      (r.registerAll (Request.allRegistrations find qs)).scope.handle? key ≠ none :=
    fun _ => Scope.mem_names_iff
  constructor
  · intro unmarked n _ name named known
    refine (Loader.isUnmarked_iff named).mp fun key form => unmarked key ((bound key).mpr ?_)
    exact top.handle?_ne_none_of_hasKey (knows_withGroups.mp known) form
  · intro once key hk
    obtain ⟨c, hc, form, known⟩ := h.exists_of_handle? (nameless key) ((bound key).mp hk)
    obtain ⟨n, hn, named⟩ := Request.exists_aliasName_of_mem_all hc
    exact (Loader.isUnmarked_iff named).mpr (once n hn c.name named known) key form

end TopLevel

end Registry

namespace Loader

def expanded (cs : Conditions) (text : String) : List (List Char) :=
  Request.allExpanded (fun _ => none) (Request.ofText cs text)

/-- The names of a text have no marks exactly if each of the expanded names whose two forms are
among them has one gender token at most, and one mark of the plural at most in front of it. -/
theorem names_text_isUnmarked_iff (p : Platform) (cs : Conditions) (source : Option String)
    (text : String) :
    let r := ((Loader.start (.empty p) cs).text source text).registry
    (∀ key ∈ r.scope.names.keys, IsUnmarked key) ↔
      ∀ n ∈ expanded cs text, ∀ name, (aliasName n).1 = some name → r.Knows name →
        Noun.IsMarkedOnce n :=
  Registry.TopLevel.isUnmarked_iff (.empty p) (fun _ => rfl) (exists_registry_text p cs source text)

theorem names_text_keep_marks :
    let p : Platform := ⟨⟨[1, 20, 4]⟩, false, [⟨"minecraft:oak_boat", false, 0⟩], []⟩
    let text := "s:\n  {w}:\n    oak¦en @a = oak_-\n  {w} boat¦s @an = -boat\n"
    let r := ((Loader.start (.empty p) []).text none text).registry
    expanded [] text = ["oak¦en @a boat¦s @an".toList] ∧
      r.scope.names.keys = ["oak @a boat¦s", "oaken @a boat¦s"] ∧
      ¬∀ key ∈ r.scope.names.keys, IsUnmarked key := by
  decide +kernel

end Loader

end ItemLexicon
