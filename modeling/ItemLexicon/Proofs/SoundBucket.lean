import ItemLexicon.Proofs.DefinedItem
import ItemLexicon.Registry.Index
import Mathlib.Data.List.Pairwise

/-! Buckets whose entries are pairwise told apart.  In such a bucket every entry is found again by
its own item, the alternatives by being the only exact match and the bare one because no alternative
comes closer to it than by the material. -/

namespace ItemLexicon

namespace Match

variable {legacy : Bool} {i : Item}

theorem quality_improve (P : Quality → Prop) {best : Match} {e : Entry} (hb : P best.quality)
    (he : P (i.compare legacy e.item)) : P (improve legacy i best e).quality := by
  rw [improve]
  by_cases h : (i.compare legacy e.item).isBetter best.quality = true
  · rwa [if_pos h]
  · rwa [if_neg h]

theorem quality_foldl_improve (P : Quality → Prop) {es : List Entry} {best : Match}
    (hb : P best.quality) (hs : ∀ e ∈ es, P (i.compare legacy e.item)) :
    P (es.foldl (improve legacy i) best).quality := by
  induction es generalizing best with
  | nil => exact hb
  | cons e es ih =>
    apply ih
    · exact quality_improve P hb (hs e List.mem_cons_self)
    · intro x hx
      exact hs x (List.mem_cons_of_mem e hx)

theorem improve_of_exact {best : Match} {e : Entry} (hb : best.quality ≠ .exact)
    (he : i.compare legacy e.item = .exact) : improve legacy i best e = ⟨.exact, some e⟩ := by
  have better : Quality.isBetter .exact best.quality = true := by
    cases hq : best.quality with
    | exact => exact absurd hq hb
    | _ => rfl
  simp only [improve, he]
  rw [if_pos better]

theorem foldl_improve_exact (es : List Entry) (found : Option Entry) :
    es.foldl (improve legacy i) ⟨.exact, found⟩ = ⟨.exact, found⟩ := by
  induction es with
  | nil => rfl
  | cons e es ih =>
    have worse : (i.compare legacy e.item).isBetter .exact = false := by
      cases i.compare legacy e.item <;> rfl
    rw [List.foldl_cons, improve]
    simp only [worse]
    exact ih

end Match

namespace Bucket

theorem entries_add {b : Bucket} {e : Entry} (h : e.item.isDefault = true → b.bare = none) :
    (b.add e).entries.Perm (e :: b.entries) := by
  by_cases hd : e.item.isDefault = true
  · rw [add, if_pos hd, entries, entries, h hd]
    exact .refl _
  · rw [add, if_neg hd, entries, entries, ← List.append_assoc]
    exact List.perm_append_singleton e _

theorem mem_entries_of_bare {b : Bucket} {e : Entry} (h : b.bare = some e) : e ∈ b.entries := by
  rw [entries, h]
  exact List.mem_cons_self

theorem mem_entries_of_alternatives {b : Bucket} {e : Entry} (h : e ∈ b.alternatives) :
    e ∈ b.entries := List.mem_append_right _ h

theorem equal?_eq_none_iff {legacy : Bool} {i : Item} {b : Bucket} :
    b.equal? legacy i = none ↔ ∀ e ∈ b.entries, i.compare legacy e.item ≠ .exact := by
  simp [equal?]

theorem mem_of_equal? {legacy : Bool} {i : Item} {b : Bucket} {e : Entry}
    (h : b.equal? legacy i = some e) : e ∈ b.entries ∧ i.compare legacy e.item = .exact := by
  rw [equal?] at h
  exact ⟨List.mem_of_find?_eq_some h, by simpa using List.find?_some h⟩

/-- The entries stem from definitions for the material of the bucket, no two of them agree, and the
bare one alone has nothing given. -/
structure Sound (p : Platform) (m : Nat) (b : Bucket) : Prop where
  defined : ∀ e ∈ b.entries, ∃ info, p.info? m = some info ∧ e.item.IsDefined m info
  bare : ∀ e ∈ b.bare, e.item.isDefault = true
  alternatives : ∀ e ∈ b.alternatives, e.item.isDefault = false
  apart : b.entries.Pairwise fun e e' => ¬e.item.Agrees e'.item

namespace Sound

variable {p : Platform} {m : Nat} {b : Bucket} {info : MaterialInfo} {e : Entry} {legacy : Bool}

theorem empty (p : Platform) (m : Nat) : Sound p m .empty := by
  constructor <;> simp [Bucket.empty, entries]

theorem bare_eq_none (hb : b.Sound p m) (hi : p.info? m = some info)
    (he : e.item.IsDefined m info) (hn : ∀ x ∈ b.entries, ¬e.item.Agrees x.item)
    (hd : e.item.isDefault = true) : b.bare = none := by
  cases hx : b.bare with
  | none => rfl
  | some x =>
    have mem := mem_entries_of_bare hx
    obtain ⟨info', hi', hx'⟩ := hb.defined x mem
    rw [hi] at hi'
    cases hi'
    exact absurd (he.agrees_of_isDefault hx' hd (hb.bare x hx)) (hn x mem)

theorem entries_add (hb : b.Sound p m) (hi : p.info? m = some info)
    (he : e.item.IsDefined m info) (hn : ∀ x ∈ b.entries, ¬e.item.Agrees x.item) :
    (b.add e).entries.Perm (e :: b.entries) := Bucket.entries_add (hb.bare_eq_none hi he hn)

theorem add (hb : b.Sound p m) (hi : p.info? m = some info) (he : e.item.IsDefined m info)
    (hn : ∀ x ∈ b.entries, ¬e.item.Agrees x.item) : (b.add e).Sound p m where
  defined := by
    intro x hx
    rcases List.mem_cons.mp ((hb.entries_add hi he hn).mem_iff.mp hx) with rfl | hx
    · exact ⟨info, hi, he⟩
    · exact hb.defined x hx
  bare := by
    intro x hx
    by_cases hd : e.item.isDefault = true
    · rw [Bucket.add, if_pos hd] at hx
      cases hx
      exact hd
    · rw [Bucket.add, if_neg hd] at hx
      exact hb.bare x hx
  alternatives := by
    intro x hx
    by_cases hd : e.item.isDefault = true
    · rw [Bucket.add, if_pos hd] at hx
      exact hb.alternatives x hx
    · rw [Bucket.add, if_neg hd] at hx
      rcases List.mem_append.mp hx with hx | hx
      · exact hb.alternatives x hx
      · rw [List.mem_singleton.mp hx]
        exact Bool.eq_false_iff.mpr hd
  apart := by
    -- disagreement is symmetric, so the place of the new entry does not matter
    rw [(hb.entries_add hi he hn).pairwise_iff fun h h' => h h'.symm]
    exact List.pairwise_cons.mpr ⟨hn, hb.apart⟩

theorem bare_add (hb : b.Sound p m) (hi : p.info? m = some info) (he : e.item.IsDefined m info)
    (hn : ∀ x ∈ b.entries, ¬e.item.Agrees x.item) {d : Entry} (hd : b.bare = some d) :
    (b.add e).bare = some d := by
  have hf : ¬e.item.isDefault = true := by
    intro h
    rw [hb.bare_eq_none hi he hn h] at hd
    cases hd
  rwa [Bucket.add, if_neg hf]

theorem compare_ne_exact (hb : b.Sound p m) {x y : Entry} (hx : x ∈ b.entries)
    (hy : y ∈ b.entries) (h : ¬x.item.Agrees y.item) :
    x.item.compare legacy y.item ≠ .exact := by
  obtain ⟨infoX, -, dx⟩ := hb.defined x hx
  obtain ⟨infoY, -, dy⟩ := hb.defined y hy
  intro hc
  exact h ((dx.compare_eq_exact_iff dy).mp hc)

theorem eq_of_agrees (hb : b.Sound p m) {x y : Entry} (hx : x ∈ b.entries) (hy : y ∈ b.entries)
    (h : x.item.Agrees y.item) : x = y := by
  have symm : Std.Symm fun x y : Entry => ¬x.item.Agrees y.item := ⟨fun _ _ ne h => ne h.symm⟩
  by_contra ne
  exact hb.apart.forall hx hy ne h

theorem compare_self (hb : b.Sound p m) (he : e ∈ b.entries) :
    e.item.compare legacy e.item = .exact := by
  obtain ⟨info, -, hd⟩ := hb.defined e he
  exact (hd.compare_eq_exact_iff hd).mpr (.refl _)

theorem bestAlternative_eq (hb : b.Sound p m) (he : e ∈ b.alternatives) :
    b.bestAlternative legacy e.item = ⟨.exact, some e⟩ := by
  obtain ⟨before, after, hs⟩ := List.mem_iff_append.mp he
  have apart := (List.pairwise_append.mp hb.apart).2.1
  rw [hs, List.pairwise_append] at apart
  -- no alternative in front of it matches exactly, and none behind it can be better
  have first : (before.foldl (Match.improve legacy e.item) .none).quality ≠ .exact := by
    apply Match.quality_foldl_improve (· ≠ .exact) (by simp [Match.none])
    intro x hx
    have mem : x ∈ b.alternatives := by
      rw [hs]
      exact List.mem_append_left _ hx
    apply hb.compare_ne_exact (mem_entries_of_alternatives he) (mem_entries_of_alternatives mem)
    intro h
    exact apart.2.2 x hx e List.mem_cons_self h.symm
  rw [bestAlternative, hs, List.foldl_append, List.foldl_cons,
    Match.improve_of_exact first (hb.compare_self (mem_entries_of_alternatives he)),
    Match.foldl_improve_exact]

theorem bestAlternative_of_bare (hb : b.Sound p m) (he : b.bare = some e) :
    (b.bestAlternative legacy e.item).quality.isBetter .sameMaterial = false := by
  have apart := hb.apart
  rw [entries, he] at apart
  apply Match.quality_foldl_improve (fun q => q.isBetter .sameMaterial = false) rfl
  intro x hx
  have mem := mem_entries_of_bare he
  have mem' := mem_entries_of_alternatives hx
  have exact' : e.item.compare legacy x.item ≠ .exact :=
    hb.compare_ne_exact mem mem' ((List.pairwise_cons.mp apart).1 x hx)
  obtain ⟨info, -, hd⟩ := hb.defined e mem
  obtain ⟨info', -, hd'⟩ := hb.defined x mem'
  have sameItem : e.item.compare legacy x.item ≠ .sameItem :=
    (hd.isNeutral (hb.bare e he)).compare_ne_sameItem hd'
  cases hq : e.item.compare legacy x.item with
  | exact => exact absurd hq exact'
  | sameItem => exact absurd hq sameItem
  | sameMaterial => rfl
  | different => rfl

theorem find_eq (hb : b.Sound p m) (he : e ∈ b.entries) :
    b.find legacy e.item = ⟨.exact, some e⟩ := by
  rcases List.mem_append.mp he with h | h
  · have bare : b.bare = some e := by simpa using h
    rw [find]
    simp only [hb.bestAlternative_of_bare bare, bare, hb.compare_self he]
    rfl
  · rw [find]
    simp only [hb.bestAlternative_eq h]
    rfl

end Sound

end Bucket

end ItemLexicon
