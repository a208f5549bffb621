import ItemLexicon.Definition.Variation

namespace ItemLexicon

theorem exists_of_map_eq_ok {ε α β : Type} {f : α → β} {x : Except ε α} {b : β}
    (h : x.map f = .ok b) : ∃ a, x = .ok a ∧ f a = b := by
  cases x with
  | error e => cases h
  | ok a =>
    cases h
    exact ⟨a, rfl, rfl⟩

def Tag.IsProper : Tag → Prop
  | .compound entries => Dictionary.Sorted entries
  | _ => True

instance (t : Tag) : Decidable t.IsProper :=
  match t with
  | .compound entries => inferInstanceAs (Decidable (Dictionary.Sorted entries))
  | .null | .bool _ | .int _ | .float _ | .text _ | .list _ => inferInstanceAs (Decidable True)

/-- Tags are listed by key, and so are the entries of each compound among them. -/
structure Tags.IsProper (tags : Tags) : Prop where
  sorted : Dictionary.Sorted tags
  entries : ∀ e ∈ tags, e.2.IsProper

namespace Tags

variable {tags : Tags}

theorem isProper_nil : IsProper [] := ⟨Dictionary.sorted_nil, List.forall_mem_nil _⟩

theorem IsProper.insert (h : tags.IsProper) (key : String) {t : Tag} (ht : t.IsProper) :
    IsProper (Dictionary.insert key t tags) := by
  refine ⟨h.sorted.insert key t, fun e he => ?_⟩
  rcases Dictionary.mem_insert he with rfl | he
  · exact ht
  · exact h.entries e he

theorem IsProper.erase (h : tags.IsProper) (key : String) :
    IsProper (Dictionary.erase key tags) :=
  ⟨Dictionary.Sorted.erase h.sorted key,
    fun e he => h.entries e ((Dictionary.erase_sublist key tags).subset he)⟩

theorem isProper_ofList {entries : List (String × Tag)} (h : ∀ e ∈ entries, e.2.IsProper) :
    IsProper (Dictionary.ofList entries) :=
  ⟨Dictionary.sorted_ofList entries, fun e he => h e (Dictionary.mem_of_mem_ofList he)⟩

end Tags

namespace Tag

def HasProperEntries : Tag → Prop
  | .compound entries => Tags.IsProper entries
  | _ => True

theorem HasProperEntries.isProper {t : Tag} (h : t.HasProperEntries) : t.IsProper := by
  cases t with
  | compound entries => exact h.sorted
  | _ => trivial

theorem hasProperEntries_ofBare (s : List Char) : (ofBare s).HasProperEntries := by
  have number : ∀ {s t}, number? s = some t → t.HasProperEntries := by
    intro s t ht
    rw [number?] at ht
    split at ht
    · cases ht
      trivial
    · obtain ⟨x, -, rfl⟩ := Option.map_eq_some_iff.mp ht
      trivial
  rw [ofBare]
  split
  · trivial
  · split
    · trivial
    · split
      · trivial
      · split
        · rename_i ht
          exact number ht
        · split
          · rename_i ht
            obtain ⟨s', -, ht⟩ := Option.bind_eq_some_iff.mp ht
            exact number ht
          · trivial

theorem isProper_relaxedEntries {fuel : Nat} {entries : Tags} {c : Cursor} {r : Tags × Cursor}
    (values : ∀ n < fuel, ∀ {c r}, relaxedValue n c = .ok r → r.1.IsProper)
    (h : entries.IsProper) (hr : relaxedEntries fuel entries c = .ok r) : r.1.IsProper := by
  induction fuel generalizing entries c with
  | zero =>
    rw [relaxedEntries] at hr
    cases hr
  | succ fuel ih =>
    have fewer : ∀ n < fuel, ∀ {c r}, relaxedValue n c = .ok r → r.1.IsProper :=
      fun n hn => values n (Nat.lt_succ_of_lt hn)
    rw [relaxedEntries] at hr
    split at hr
    · cases hr
    · cases hr
    · split at hr
      · cases hr
      · split at hr
        · cases hr
        · rename_i value
          have proper := values fuel (Nat.lt_succ_self fuel) value
          simp only at hr
          split at hr
          · exact ih fewer (h.insert _ proper) hr
          · cases hr
            exact h.insert _ proper
          · cases hr
          · cases hr

theorem hasProperEntries_relaxedValue {fuel : Nat} {c : Cursor} {r : Tag × Cursor}
    (hr : relaxedValue fuel c = .ok r) : r.1.HasProperEntries := by
  induction fuel using Nat.strongRecOn generalizing c r with
  | ind fuel ih =>
  cases fuel with
  | zero =>
    rw [relaxedValue] at hr
    cases hr
  | succ fuel =>
    rw [relaxedValue] at hr
    simp only at hr
    split at hr
    · cases hr
    · split at hr
      · cases hr
        exact Tags.isProper_nil
      · obtain ⟨read, entries, rfl⟩ := exists_of_map_eq_ok hr
        have values : ∀ n < fuel, ∀ {c r}, relaxedValue n c = .ok r → r.1.IsProper :=
          fun n hn _ _ hr => (ih n (Nat.lt_succ_of_lt hn) hr).isProper
        exact isProper_relaxedEntries values Tags.isProper_nil entries
    · split at hr
      · cases hr
        trivial
      · obtain ⟨read, -, rfl⟩ := exists_of_map_eq_ok hr
        trivial
    · split at hr
      · obtain ⟨read, -, rfl⟩ := exists_of_map_eq_ok hr
        trivial
      · split at hr
        · cases hr
        · cases hr
          exact hasProperEntries_ofBare _

theorem isProper_entriesOfMembers? {depth : Nat}
    (values : ∀ {d t}, ofDocument? depth d = some t → t.IsProper)
    {members : List (List Json.Piece × Json.Document)} {entries : List (String × Tag)}
    (h : entriesOfMembers? depth members = some entries) : ∀ e ∈ entries, e.2.IsProper := by
  induction members generalizing entries with
  | nil =>
    cases h
    exact List.forall_mem_nil _
  | cons member members ih =>
    rw [entriesOfMembers?] at h
    split at h
    · rename_i value rest
      cases h
      exact List.forall_mem_cons.mpr ⟨values value, ih rest⟩
    · cases h

theorem hasProperEntries_ofDocument? {depth : Nat} {d : Json.Document} {t : Tag}
    (ht : ofDocument? depth d = some t) : t.HasProperEntries := by
  induction depth using Nat.strongRecOn generalizing d t with
  | ind depth ih =>
  cases d with
  | object members =>
    cases depth with
    | zero => cases ht
    | succ depth =>
      rw [ofDocument?] at ht
      obtain ⟨es, hes, rfl⟩ := Option.map_eq_some_iff.mp ht
      have values : ∀ {d t}, ofDocument? depth d = some t → t.IsProper :=
        fun ht => (ih depth (Nat.lt_succ_self depth) ht).isProper
      exact Tags.isProper_ofList (isProper_entriesOfMembers? values hes)
  | array items =>
    cases depth with
    | zero => cases ht
    | succ depth =>
      rw [ofDocument?] at ht
      obtain ⟨ts, -, rfl⟩ := Option.map_eq_some_iff.mp ht
      trivial
  | number n =>
    rw [ofDocument?, Json.NumberText.tag?] at ht
    split at ht
    · cases ht
      trivial
    · obtain ⟨x, -, rfl⟩ := Option.map_eq_some_iff.mp ht
      trivial
  | text ps =>
    rw [ofDocument?] at ht
    obtain ⟨s, -, rfl⟩ := Option.map_eq_some_iff.mp ht
    trivial
  | _ =>
    rw [ofDocument?] at ht
    cases ht
    trivial

theorem hasProperEntries_ofText {s : List Char} {t : Tag} (ht : ofText s = .ok t) :
    t.HasProperEntries := by
  rw [ofText] at ht
  split at ht
  · rename_i strict
    cases ht
    obtain ⟨d, -, strict⟩ := Option.bind_eq_some_iff.mp strict
    exact hasProperEntries_ofDocument? strict
  · rw [relaxed] at ht
    split at ht
    · cases ht
    · rename_i value
      simp only at ht
      split at ht
      · cases ht
        exact hasProperEntries_relaxedValue value
      · cases ht

end Tag

theorem Tags.isProper_read {s : String} {tags : Tags} (h : Tags.read s = .ok tags) :
    tags.IsProper := by
  rw [Tags.read] at h
  split at h
  · cases h
  · rename_i compound
    cases h
    exact Tag.hasProperEntries_ofText compound
  · cases h

theorem States.sorted_addAll {parts : List (List Char)} {states all : States}
    (hs : Dictionary.Sorted states) (h : States.addAll states parts = .ok all) :
    Dictionary.Sorted all := by
  induction parts generalizing states with
  | nil =>
    cases h
    exact hs
  | cons part parts ih =>
    rw [States.addAll] at h
    split at h
    · cases h
    · exact ih (hs.insert ..) h

namespace Variation

structure IsProper (v : Variation) : Prop where
  tags : Dictionary.Sorted v.tags
  states : Dictionary.Sorted v.states

theorem isProper_empty : IsProper .empty := ⟨Dictionary.sorted_nil, Dictionary.sorted_nil⟩

variable {v other : Variation}

theorem IsProper.merge (h : other.IsProper) (v : Variation) : (v.merge other).IsProper :=
  ⟨h.tags.merge v.tags, h.states.merge v.states⟩

theorem sorted_cutTags {s : List Char} {r : List Char × Tags} (h : cutTags s = .ok r) :
    Dictionary.Sorted r.2 := by
  rw [cutTags] at h
  split at h
  · cases h
    exact Dictionary.sorted_nil
  · cases h
  · simp only at h
    split at h
    · rename_i tags
      cases h
      exact (Tags.isProper_read tags).sorted
    · cases h

theorem sorted_cutStates {s : List Char} {r : List Char × States} (h : cutStates s = .ok r) :
    Dictionary.Sorted r.2 := by
  rw [cutStates] at h
  split at h
  · cases h
    exact Dictionary.sorted_nil
  · cases h
  · split at h
    · cases h
    · obtain ⟨states, hs, rfl⟩ := exists_of_map_eq_ok h
      exact States.sorted_addAll Dictionary.sorted_nil hs

theorem read_eq_ok_iff {s : List Char} : read s = .ok v ↔
    ∃ rest tags name states, cutTags (Text.trim s) = .ok (rest, tags) ∧
      cutStates rest = .ok (name, states) ∧
      v = ⟨(idOf name).map String.ofList, (idOf name).bind hyphenAt, tags, states⟩ := by
  rw [read]
  constructor
  · intro h
    cases cut : cutTags (Text.trim s) with
    | error e =>
      rw [cut] at h
      cases h
    | ok r =>
      rw [cut] at h
      cases cut' : cutStates r.1 with
      | error e =>
        simp only [bind, Except.bind, cut'] at h
        cases h
      | ok r' =>
        simp only [bind, Except.bind, cut'] at h
        cases h
        exact ⟨_, _, _, _, rfl, cut', rfl⟩
  · rintro ⟨rest, tags, name, states, cut, cut', rfl⟩
    simp only [bind, Except.bind, cut, cut']
    rfl

theorem isProper_read {s : List Char} (h : read s = .ok v) : v.IsProper := by
  obtain ⟨rest, tags, name, states, cut, cut', rfl⟩ := read_eq_ok_iff.mp h
  exact ⟨sorted_cutTags cut, sorted_cutStates cut'⟩

end Variation

namespace VariationGroup

def IsProper (g : VariationGroup) : Prop := ∀ e ∈ g.entries, e.2.IsProper

end VariationGroup

end ItemLexicon
