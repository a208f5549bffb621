import ItemLexicon.Proofs.ReachableRegistry
import Mathlib.Data.List.Induction

namespace ItemLexicon

namespace Match

variable {legacy : Bool} {i : Item} {es : List Entry} {best : Match}

/-- The match with the first of the entries that match best, and none where all are different. -/
inductive IsFirstBest (legacy : Bool) (i : Item) (es : List Entry) : Match → Prop
  | absent (different : ∀ x ∈ es, i.compare legacy x.item = .different) :
      IsFirstBest legacy i es .none
  | present {before after : List Entry} {e : Entry} (split : es = before ++ e :: after)
      (alike : i.compare legacy e.item ≠ .different)
      (first : ∀ x ∈ before, (i.compare legacy e.item).rank < (i.compare legacy x.item).rank)
      (least : ∀ x ∈ after, (i.compare legacy e.item).rank ≤ (i.compare legacy x.item).rank) :
      IsFirstBest legacy i es ⟨i.compare legacy e.item, some e⟩

namespace IsFirstBest

theorem rank_le (h : IsFirstBest legacy i es best) {x : Entry} (hx : x ∈ es) :
    best.quality.rank ≤ (i.compare legacy x.item).rank := by
  cases h with
  | absent different => exact Quality.eq_different_iff.mp (different x hx)
  | present split alike first least =>
    rw [split, List.mem_append, List.mem_cons] at hx
    rcases hx with hx | rfl | hx
    · exact Nat.le_of_lt (first x hx)
    · exact le_rfl
    · exact least x hx

theorem improve (h : IsFirstBest legacy i es best) (e : Entry) :
    IsFirstBest legacy i (es ++ [e]) (best.improve legacy i e) := by
  rw [Match.improve]
  by_cases better : (i.compare legacy e.item).isBetter best.quality = true
  · have lt := Quality.isBetter_iff.mp better
    rw [if_pos better]
    have alike : i.compare legacy e.item ≠ .different := by
      rw [Ne, Quality.eq_different_iff]
      exact Nat.not_le.mpr (lt.trans_le best.quality.rank_le_three)
    have first : ∀ x ∈ es, (i.compare legacy e.item).rank < (i.compare legacy x.item).rank :=
      fun x hx => lt.trans_le (h.rank_le hx)
    have last : es ++ [e] = es ++ e :: [] := rfl
    exact .present last alike first (by simp)
  · have le := Nat.not_lt.mp (mt Quality.isBetter_iff.mpr better)
    rw [if_neg better]
    cases h with
    | absent different =>
      refine .absent fun x hx => ?_
      rcases List.mem_append.mp hx with hx | hx
      · exact different x hx
      · rw [List.mem_singleton.mp hx, Quality.eq_different_iff]
        exact le
    | @present before after d split alike first least =>
      have longer : es ++ [e] = before ++ d :: (after ++ [e]) := by simp [split]
      refine .present longer alike first fun x hx => ?_
      rcases List.mem_append.mp hx with hx | hx
      · exact least x hx
      · rw [List.mem_singleton.mp hx]
        exact le

end IsFirstBest

theorem isFirstBest_foldl (es : List Entry) :
    IsFirstBest legacy i es (es.foldl (improve legacy i) .none) := by
  induction es using List.reverseRecOn with
  | nil => exact .absent (by simp)
  | append_singleton es e ih =>
    rw [List.foldl_append, List.foldl_cons, List.foldl_nil]
    exact ih.improve e

end Match

namespace Bucket

variable {legacy : Bool} {i : Item} {b : Bucket} {found : Match}

inductive Finds (legacy : Bool) (i : Item) (b : Bucket) : Match → Prop
  | alternative {q : Quality} {e : Entry}
      (best : Match.IsFirstBest legacy i b.alternatives ⟨q, some e⟩)
      (before : q.isBetter .sameMaterial = true ∨ b.bare = none) : Finds legacy i b ⟨q, some e⟩
  | bare {e : Entry} (bare : b.bare = some e)
      (far : ∀ x ∈ b.alternatives, (i.compare legacy x.item).isBetter .sameMaterial = false) :
      Finds legacy i b ⟨i.compare legacy e.item, some e⟩
  | nothing (bare : b.bare = none)
      (different : ∀ x ∈ b.alternatives, i.compare legacy x.item = .different) :
      Finds legacy i b .none

/-- The entries that the search considers: the bare one, and of the alternatives those that come
closer than by the material, or all if there is no bare one. -/
inductive Considers (legacy : Bool) (i : Item) (b : Bucket) (x : Entry) : Prop
  | bare (bare : b.bare = some x)
  | alternative (listed : x ∈ b.alternatives)
      (close : (i.compare legacy x.item).isBetter .sameMaterial = true ∨ b.bare = none)

theorem finds_find (legacy : Bool) (i : Item) (b : Bucket) :
    Finds legacy i b (b.find legacy i) := by
  have best : Match.IsFirstBest legacy i b.alternatives (b.bestAlternative legacy i) :=
    Match.isFirstBest_foldl b.alternatives
  rw [find]
  generalize b.bestAlternative legacy i = m at best
  by_cases close : m.quality.isBetter .sameMaterial = true
  · rw [if_pos close]
    cases best with
    | absent => cases close
    | present split alike first least =>
      exact .alternative (.present split alike first least) (.inl close)
  · rw [if_neg close]
    cases hb : b.bare with
    | some e =>
      refine .bare hb fun x hx => Bool.eq_false_iff.mpr fun better => ?_
      rw [Quality.isBetter_iff] at close better
      exact close ((best.rank_le hx).trans_lt better)
    | none =>
      cases best with
      | absent different => exact .nothing hb different
      | @present _ _ e split alike first least =>
        -- no better than by the material, and not different either
        have q : i.compare legacy e.item = .sameMaterial := by
          cases hq : i.compare legacy e.item <;> simp_all [Quality.isBetter, Quality.rank]
        have best := Match.IsFirstBest.present split alike first least
        rw [q] at best
        exact .alternative best (.inr hb)

theorem Considers.mem_entries {x : Entry} (h : b.Considers legacy i x) : x ∈ b.entries := by
  cases h with
  | bare bare => exact mem_entries_of_bare bare
  | alternative listed => exact mem_entries_of_alternatives listed

namespace Finds

variable {e : Entry}

theorem considers (h : Finds legacy i b found) (he : found.entry = some e) :
    b.Considers legacy i e := by
  cases h with
  | alternative best before =>
    cases he
    cases best with
    | present split => exact .alternative (by simp [split]) before
  | bare bare far =>
    cases he
    exact .bare bare
  | nothing => cases he

theorem quality_eq (h : Finds legacy i b found) (he : found.entry = some e) :
    found.quality = i.compare legacy e.item := by
  cases h with
  | alternative best before =>
    cases he
    cases best
    rfl
  | bare bare far =>
    cases he
    rfl
  | nothing => cases he

theorem exists_split (h : Finds legacy i b found) (he : found.entry = some e)
    (ne : b.bare ≠ some e) : ∃ before after, b.alternatives = before ++ e :: after ∧
      ∀ x ∈ before, i.compare legacy x.item ≠ i.compare legacy e.item := by
  cases h with
  | alternative best before =>
    cases he
    cases best with
    | present split alike first least =>
      refine ⟨_, _, split, fun x hx same => ?_⟩
      exact absurd (first x hx) (by simp [same])
  | bare bare far =>
    cases he
    exact absurd bare ne
  | nothing => cases he

theorem different (h : Finds legacy i b found) (he : found.entry = none) :
    found.quality = .different ∧ ∀ x ∈ b.entries, i.compare legacy x.item = .different := by
  cases h with
  | alternative => cases he
  | bare => cases he
  | nothing bare different =>
    refine ⟨rfl, fun x hx => different x ?_⟩
    rwa [entries, bare] at hx

end Finds

namespace Sound

variable {p : Platform} {m : Nat} {e x : Entry}

theorem bare_ne_of_alternatives (hb : b.Sound p m) (he : e ∈ b.alternatives) :
    b.bare ≠ some e := by
  intro bare
  have hd := hb.bare e bare
  rw [hb.alternatives e he] at hd
  cases hd

theorem compare_ne_sameItem (hb : b.Sound p m) (bare : b.bare = some e)
    (hi : i.isAnything = false) (exact' : i.compare legacy e.item = .exact)
    (hx : x ∈ b.alternatives) : i.compare legacy x.item ≠ .sameItem := by
  obtain ⟨info, -, he⟩ := hb.defined e (mem_entries_of_bare bare)
  obtain ⟨info', -, hx⟩ := hb.defined x (mem_entries_of_alternatives hx)
  have agrees := ((Item.compare_eq_exact_iff hi he.isAnything).mp exact').1
  exact ((he.isNeutral (hb.bare e bare)).of_agrees agrees).compare_ne_sameItem hx

theorem rank_le_bare (hb : b.Sound p m) (hi : i.isAnything = false) (hx : x ∈ b.alternatives)
    (close : (i.compare legacy x.item).isBetter .sameMaterial = true) (bare : b.bare = some e) :
    (i.compare legacy x.item).rank ≤ (i.compare legacy e.item).rank := by
  by_cases exact' : i.compare legacy e.item = .exact
  · have ne := hb.compare_ne_sameItem bare hi exact' hx
    cases hq : i.compare legacy x.item <;> simp_all [Quality.isBetter, Quality.rank]
  · rw [Quality.eq_exact_iff, Nat.not_le] at exact'
    rw [Quality.isBetter_iff] at close
    exact (Nat.le_of_lt_succ close).trans exact'

theorem rank_find_le_of_considers (hb : b.Sound p m) (hi : i.isAnything = false)
    (hx : b.Considers legacy i x) :
    (b.find legacy i).quality.rank ≤ (i.compare legacy x.item).rank := by
  have found := finds_find legacy i b
  generalize b.find legacy i = f at found
  cases found with
  | @alternative q e best before =>
    cases hx with
    | bare bare =>
      cases best with
      | @present front back _ split alike first least =>
        have he : e ∈ b.alternatives := by simp [split]
        exact hb.rank_le_bare hi he (before.resolve_right (by simp [bare])) bare
    | alternative hx => exact best.rank_le hx
  | bare bare far =>
    cases hx with
    | bare bare' =>
      rw [bare] at bare'
      cases bare'
      exact le_rfl
    | alternative hx close =>
      rcases close with close | absent
      · rw [far x hx] at close
        cases close
      · rw [bare] at absent
        cases absent
  | nothing bare different =>
    cases hx with
    | bare bare' => simp [bare] at bare'
    | alternative hx => exact Quality.eq_different_iff.mp (different x hx)

theorem rank_find_le (hb : b.Sound p m) (hi : i.material = some m) (hx : x ∈ b.entries) :
    (b.find false i).quality.rank ≤ (i.compare false x.item).rank := by
  have subject := Item.isAnything_eq_false_iff.mpr ⟨m, hi⟩
  rw [entries, List.mem_append, Option.mem_toList] at hx
  rcases hx with bare | hx
  · exact hb.rank_find_le_of_considers subject (.bare bare)
  · by_cases close : (i.compare false x.item).isBetter .sameMaterial = true
    · exact hb.rank_find_le_of_considers subject (.alternative hx (.inl close))
    · cases bare : b.bare with
      | none => exact hb.rank_find_le_of_considers subject (.alternative hx (.inr bare))
      | some e =>
        -- what is not considered shares no more than the material, as the bare entry does
        obtain ⟨info, -, he⟩ := hb.defined e (mem_entries_of_bare bare)
        have far := Nat.not_lt.mp (mt Quality.isBetter_iff.mpr close)
        exact (hb.rank_find_le_of_considers subject (.bare bare)).trans
          ((he.rank_compare_le_two (hb.bare e bare) hi).trans far)

end Sound

end Bucket

namespace Registry

def ownBucket (r : Registry) (i : Item) : Bucket := (r.scope.index.bucketOf? i).getD .empty

theorem find_eq_find_ownBucket (r : Registry) (i : Item) :
    r.find i = (r.ownBucket i).find r.platform.legacy i := by
  rw [find, Index.find, ownBucket]
  cases r.scope.index.bucketOf? i <;> rfl

theorem finds_find (r : Registry) (i : Item) :
    (r.ownBucket i).Finds r.platform.legacy i (r.find i) := by
  rw [find_eq_find_ownBucket]
  exact Bucket.finds_find ..

theorem Sound.ownBucket {r : Registry} (h : r.Sound) {i : Item} {m : Nat}
    (hi : i.material = some m) : (r.ownBucket i).Sound r.platform m := by
  rw [Registry.ownBucket, Index.bucketOf?, hi]
  exact h.index.bucket m

/-- On a platform without data values the entry that is found is as good as any other one of the
material, an alternative is the first of its quality, and nothing is found only where every entry is
different. -/
theorem Reachable.find_best {r : Registry} (h : r.Reachable) (modern : r.platform.legacy = false)
    {i : Item} (hi : i.isAnything = false) :
    (∀ e, (r.find i).entry = some e → e ∈ (r.ownBucket i).entries ∧
      (r.find i).quality = i.compare false e.item ∧
      (e ∈ (r.ownBucket i).alternatives → ∃ before after,
        (r.ownBucket i).alternatives = before ++ e :: after ∧
        ∀ x ∈ before, i.compare false x.item ≠ i.compare false e.item)) ∧
    (∀ x ∈ (r.ownBucket i).entries,
      (i.compare false x.item).isBetter (r.find i).quality = false) ∧
    ((r.find i).entry = none → (r.find i).quality = .different ∧
      ∀ x ∈ (r.ownBucket i).entries, i.compare false x.item = .different) := by
  obtain ⟨m, hm⟩ := Item.isAnything_eq_false_iff.mp hi
  have sound := h.sound.ownBucket hm
  have found := r.finds_find i
  rw [modern] at found
  refine ⟨fun e he => ⟨(found.considers he).mem_entries, found.quality_eq he, fun listed => ?_⟩,
    fun x hx => ?_, found.different⟩
  · exact found.exists_split he (sound.bare_ne_of_alternatives listed)
  · rw [Bool.eq_false_iff, Ne, Quality.isBetter_iff, Nat.not_lt, find_eq_find_ownBucket, modern]
    exact sound.rank_find_le hm hx

theorem find_best_of_worn_sword :
    let p : Platform := ⟨⟨[1, 20, 4]⟩, false, [⟨"minecraft:diamond_sword", false, 1561⟩], []⟩
    let define (name : String) (tags : Tags) : Operation :=
      .register ⟨⟨name, name, .a⟩, "diamond_sword", tags, []⟩
    let named (name : String) : String × Tag := ("display", .compound [("Name", .text name)])
    let r := (empty p).run [define "sword" [], define "blade" [named "Blade"],
      define "worn sword" [("Damage", .int 10)], define "sharp blade" [named "Sharp"]]
    let i : Item := .ofDefinition 0 ⟨"minecraft:diamond_sword", false, 1561⟩
      [("Damage", .int 10), named "Sharp"] []
    ∃ e, (r.find i).entry = some e ∧ e.name.singular = "worn sword" ∧
      e ∈ (r.ownBucket i).alternatives ∧
      (∀ x ∈ (r.ownBucket i).entries,
        (i.compare false x.item).isBetter (r.find i).quality = false) ∧
      ∃ before after, (r.ownBucket i).alternatives = before ++ e :: after ∧
        ∀ x ∈ before, i.compare false x.item ≠ i.compare false e.item := by
  intro p define named r i
  have reachable : Reachable r := (Reachable.empty p).run _
  have modern : r.platform.legacy = false := by
    rw [run_platform]
    rfl
  have material : i.material = some 0 := rfl
  have name : (r.find i).entry.map (fun e => (e.name.singular, e.item.isDefault)) =
      some ("worn sword", false) := by decide
  clear_value r i
  have subject := Item.isAnything_eq_false_iff.mpr ⟨0, material⟩
  obtain ⟨found, best, -⟩ := reachable.find_best modern subject
  obtain ⟨e, he, hn⟩ := Option.map_eq_some_iff.mp name
  rw [Prod.mk.injEq] at hn
  obtain ⟨mem, -, first⟩ := found e he
  have listed : e ∈ (r.ownBucket i).alternatives := by
    rcases List.mem_append.mp mem with bare | listed
    · rw [(reachable.sound.ownBucket material).bare e (by simpa using bare)] at hn
      cases hn.2
    · exact listed
  exact ⟨e, he, hn.1, listed, best, first listed⟩

end Registry

end ItemLexicon
