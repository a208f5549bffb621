import ItemLexicon.Proofs.SoundBucket

namespace ItemLexicon.Index

def Sorted (ix : Index) : Prop := (ix.map Prod.fst).Pairwise (· < ·)

theorem sorted_cons {m : Nat} {b : Bucket} {ix : Index} :
    Sorted ((m, b) :: ix) ↔ (∀ c ∈ ix, m < c.1) ∧ Sorted ix := by
  simp [Sorted]

theorem bucket?_eq_none {m : Nat} {ix : Index} (h : ∀ c ∈ ix, c.1 ≠ m) : bucket? m ix = none := by
  induction ix with
  | nil => rfl
  | cons c ix ih =>
    obtain ⟨k, b⟩ := c
    rw [bucket?, if_neg (h (k, b) List.mem_cons_self)]
    exact ih fun c hc => h c (List.mem_cons_of_mem _ hc)

theorem mem_of_bucket? {m : Nat} {b : Bucket} {ix : Index} (h : bucket? m ix = some b) :
    (m, b) ∈ ix := by
  induction ix with
  | nil => cases h
  | cons c ix ih =>
    obtain ⟨k, b'⟩ := c
    rw [bucket?] at h
    by_cases hk : k = m
    · rw [if_pos hk] at h
      cases h
      rw [hk]
      exact List.mem_cons_self
    · rw [if_neg hk] at h
      exact List.mem_cons_of_mem _ (ih h)

theorem bucket?_of_mem {m : Nat} {b : Bucket} {ix : Index} (hs : Sorted ix) (h : (m, b) ∈ ix) :
    bucket? m ix = some b := by
  induction ix with
  | nil => cases h
  | cons c ix ih =>
    obtain ⟨k, b'⟩ := c
    rw [sorted_cons] at hs
    rw [bucket?]
    rcases List.mem_cons.mp h with h | h
    · cases h
      rw [if_pos rfl]
    · have hk : k ≠ m := Nat.ne_of_lt (hs.1 (m, b) h)
      rw [if_neg hk, ih hs.2 h]

theorem entries_cons (m : Nat) (b : Bucket) (ix : Index) :
    entries ((m, b) :: ix) = b.entries ++ entries ix := rfl

theorem mem_entries_iff {ix : Index} (hs : Sorted ix) {e : Entry} :
    e ∈ ix.entries ↔ ∃ m b, bucket? m ix = some b ∧ e ∈ b.entries := by
  rw [entries, List.mem_flatMap]
  constructor
  · rintro ⟨⟨m, b⟩, hc, he⟩
    exact ⟨m, b, bucket?_of_mem hs hc, he⟩
  · rintro ⟨m, b, hb, he⟩
    exact ⟨(m, b), mem_of_bucket? hb, he⟩

theorem mem_of_equal? {legacy : Bool} {ix : Index} {i : Item} {e : Entry}
    (h : ix.equal? legacy i = some e) : e ∈ ix.entries ∧ i.compare legacy e.item = .exact := by
  rw [equal?, Option.bind_eq_some_iff] at h
  obtain ⟨b, hb, he⟩ := h
  rw [bucketOf?, Option.bind_eq_some_iff] at hb
  obtain ⟨m, -, hb⟩ := hb
  obtain ⟨mem, exact'⟩ := Bucket.mem_of_equal? he
  exact ⟨List.mem_flatMap.mpr ⟨(m, b), mem_of_bucket? hb, mem⟩, exact'⟩

theorem keys_addTo {m : Nat} {e : Entry} {ix : Index} {c : Nat × Bucket}
    (h : c ∈ addTo m e ix) : c.1 = m ∨ ∃ c' ∈ ix, c'.1 = c.1 := by
  induction ix with
  | nil =>
    rw [addTo, List.mem_singleton] at h
    exact .inl (by rw [h])
  | cons d ix ih =>
    obtain ⟨k, b⟩ := d
    rw [addTo] at h
    split at h
    · rename_i hk
      rcases List.mem_cons.mp h with h | h
      · exact .inl (by rw [h, hk])
      · exact .inr ⟨c, List.mem_cons_of_mem _ h, rfl⟩
    · split at h
      · rcases List.mem_cons.mp h with h | h
        · exact .inl (by rw [h])
        · exact .inr ⟨c, h, rfl⟩
      · rcases List.mem_cons.mp h with h | h
        · exact .inr ⟨(k, b), List.mem_cons_self, by rw [h]⟩
        · rcases ih h with h | ⟨c', hc', h⟩
          · exact .inl h
          · exact .inr ⟨c', List.mem_cons_of_mem _ hc', h⟩

theorem sorted_addTo {m : Nat} (e : Entry) {ix : Index} (hs : Sorted ix) :
    Sorted (addTo m e ix) := by
  induction ix with
  | nil => simp [addTo, Sorted]
  | cons c ix ih =>
    obtain ⟨k, b⟩ := c
    have hs' := sorted_cons.mp hs
    rw [addTo]
    split
    · exact sorted_cons.mpr hs'
    · split
      · rename_i hlt
        refine sorted_cons.mpr ⟨?_, hs⟩
        intro c hc
        rcases List.mem_cons.mp hc with rfl | hc
        · exact hlt
        · exact hlt.trans (hs'.1 c hc)
      · rename_i hk hlt
        refine sorted_cons.mpr ⟨?_, ih hs'.2⟩
        intro c hc
        rcases keys_addTo hc with h | ⟨c', hc', h⟩
        · omega
        · rw [← h]
          exact hs'.1 c' hc'

theorem bucket?_addTo_self {m : Nat} (e : Entry) {ix : Index} (hs : Sorted ix) :
    bucket? m (addTo m e ix) = some (((bucket? m ix).getD .empty).add e) := by
  induction ix with
  | nil => simp [addTo, bucket?]
  | cons c ix ih =>
    obtain ⟨k, b⟩ := c
    rw [sorted_cons] at hs
    rw [addTo]
    split
    · rename_i hk
      simp [bucket?, hk]
    · rename_i hk
      split
      · rename_i hlt
        have absent : bucket? m ((k, b) :: ix) = none := by
          apply bucket?_eq_none
          intro c hc
          rcases List.mem_cons.mp hc with rfl | hc
          · exact hk
          · exact Nat.ne_of_gt (hlt.trans (hs.1 c hc))
        rw [absent, bucket?, if_pos rfl, Option.getD_none]
      · rw [bucket?, if_neg hk, bucket?, if_neg hk, ih hs.2]

theorem bucket?_addTo_of_ne {m n : Nat} (h : n ≠ m) (e : Entry) (ix : Index) :
    bucket? n (addTo m e ix) = bucket? n ix := by
  induction ix with
  | nil => simp [addTo, bucket?, Ne.symm h]
  | cons c ix ih =>
    obtain ⟨k, b⟩ := c
    rw [addTo]
    split
    · rename_i hk
      have hkn : k ≠ n := by rw [hk]; exact Ne.symm h
      rw [bucket?, if_neg hkn, bucket?, if_neg hkn]
    · split
      · rw [bucket?, if_neg (Ne.symm h)]
      · rw [bucket?, bucket?, ih]

theorem entries_addTo {m : Nat} {e : Entry} {ix : Index}
    (h : ∀ b, bucket? m ix = some b → (b.add e).entries.Perm (e :: b.entries)) :
    (addTo m e ix).entries.Perm (e :: ix.entries) := by
  have single : (Bucket.empty.add e).entries = [e] := by
    by_cases hd : e.item.isDefault = true <;>
      simp [Bucket.add, Bucket.entries, Bucket.empty, hd]
  induction ix with
  | nil =>
    rw [addTo, entries_cons, single]
    exact .refl _
  | cons c ix ih =>
    obtain ⟨k, b⟩ := c
    rw [addTo]
    split
    · rename_i hk
      have old : bucket? m ((k, b) :: ix) = some b := by rw [bucket?, if_pos hk]
      rw [entries_cons, entries_cons]
      exact (h b old).append_right _
    · rename_i hk
      split
      · rw [entries_cons, single]
        exact .refl _
      · have rest : (addTo m e ix).entries.Perm (e :: entries ix) := by
          apply ih
          intro b' hb'
          apply h
          rw [bucket?, if_neg hk, hb']
        rw [entries_cons, entries_cons]
        exact (rest.append_left _).trans List.perm_middle

/-- Nothing is lost from one index to the next, and no bare entry is replaced. -/
structure Grows (ix ix' : Index) : Prop where
  entries : ∀ e ∈ ix.entries, e ∈ ix'.entries
  bare : ∀ m b e, bucket? m ix = some b → b.bare = some e →
    ∃ b', bucket? m ix' = some b' ∧ b'.bare = some e

namespace Grows

theorem refl (ix : Index) : Grows ix ix where
  entries _ he := he
  bare _ b _ hb he := ⟨b, hb, he⟩

theorem trans {ix ix' ix'' : Index} (h : Grows ix ix') (h' : Grows ix' ix'') : Grows ix ix'' where
  entries e he := h'.entries e (h.entries e he)
  bare := by
    intro m b e hb he
    obtain ⟨b', hb', he'⟩ := h.bare m b e hb he
    exact h'.bare m b' e hb' he'

end Grows

structure Sound (p : Platform) (ix : Index) : Prop where
  sorted : ix.Sorted
  buckets : ∀ m b, bucket? m ix = some b → b.Sound p m

namespace Sound

variable {p : Platform} {ix : Index} {m : Nat} {info : MaterialInfo} {e : Entry} {legacy : Bool}

theorem empty (p : Platform) : Sound p [] where
  sorted := List.Pairwise.nil
  buckets := by
    intro m b h
    cases h

theorem bucket (hx : ix.Sound p) (m : Nat) : ((bucket? m ix).getD .empty).Sound p m := by
  cases hb : bucket? m ix with
  | none => exact .empty p m
  | some b => exact hx.buckets m b hb

theorem mem_bucket (hx : ix.Sound p) (he : e ∈ ix.entries) :
    ∃ m b, e.item.material = some m ∧ bucket? m ix = some b ∧ e ∈ b.entries := by
  obtain ⟨m, b, hb, he⟩ := (mem_entries_iff hx.sorted).mp he
  obtain ⟨info, -, hd⟩ := (hx.buckets m b hb).defined e he
  exact ⟨m, b, hd.material, hb, he⟩

theorem find_eq (hx : ix.Sound p) (he : e ∈ ix.entries) :
    ix.find legacy e.item = ⟨.exact, some e⟩ := by
  obtain ⟨m, b, hm, hb, he⟩ := hx.mem_bucket he
  have found : ix.bucketOf? e.item = some b := by rw [bucketOf?, hm, Option.bind_some, hb]
  rw [find, found]
  exact (hx.buckets m b hb).find_eq he

theorem not_agrees (hx : ix.Sound p) (he : e.item.IsDefined m info)
    (hn : ix.equal? legacy e.item = none) :
    ∀ x ∈ ((bucket? m ix).getD .empty).entries, ¬e.item.Agrees x.item := by
  intro x hx' h
  cases hb : bucket? m ix with
  | none =>
    rw [hb] at hx'
    cases hx'
  | some b =>
    rw [hb, Option.getD_some] at hx'
    obtain ⟨info', -, hd⟩ := (hx.buckets m b hb).defined x hx'
    rw [equal?, bucketOf?, he.material, Option.bind_some, hb, Option.bind_some,
      Bucket.equal?_eq_none_iff] at hn
    exact hn x hx' ((he.compare_eq_exact_iff hd).mpr h)

theorem equal?_eq_some_iff (hx : ix.Sound p) {i : Item} (hi : i.IsDefined m info) :
    ix.equal? legacy i = some e ↔ e ∈ ix.entries ∧ i.Agrees e.item := by
  have agrees : ∀ x ∈ ix.entries, (i.compare legacy x.item = .exact ↔ i.Agrees x.item) := by
    intro x hx'
    obtain ⟨n, b, -, hb, mem⟩ := hx.mem_bucket hx'
    obtain ⟨info', -, hd⟩ := (hx.buckets n b hb).defined x mem
    exact hi.compare_eq_exact_iff hd
  constructor
  · intro h
    obtain ⟨mem, exact'⟩ := mem_of_equal? h
    exact ⟨mem, (agrees e mem).mp exact'⟩
  · rintro ⟨listed, he⟩
    obtain ⟨n, b, hn, hb, mem⟩ := hx.mem_bucket listed
    rw [← he.material, hi.material] at hn
    cases hn
    have found : ix.equal? legacy i = b.equal? legacy i := by
      rw [equal?, bucketOf?, hi.material, Option.bind_some, hb, Option.bind_some]
    rw [found]
    cases hf : b.equal? legacy i with
    | none => exact absurd ((agrees e listed).mpr he) (Bucket.equal?_eq_none_iff.mp hf e mem)
    | some x =>
      -- two entries that agree with one item agree with each other
      have first := mem_of_equal? (found.trans hf)
      have both : x.item.Agrees e.item := ((agrees x first.1).mp first.2).symm.trans he
      rw [(hx.buckets m b hb).eq_of_agrees (Bucket.mem_of_equal? hf).1 mem both]

theorem add (hx : ix.Sound p) (hi : p.info? m = some info) (he : e.item.IsDefined m info)
    (hn : ix.equal? legacy e.item = none) : (ix.add e).Sound p := by
  rw [Index.add, he.material]
  refine ⟨sorted_addTo e hx.sorted, ?_⟩
  intro n b hb
  by_cases h : n = m
  · rw [h, bucket?_addTo_self e hx.sorted] at hb
    cases hb
    rw [h]
    exact (hx.bucket m).add hi he (hx.not_agrees he hn)
  · rw [bucket?_addTo_of_ne h] at hb
    exact hx.buckets n b hb

theorem entries_add (hx : ix.Sound p) (hi : p.info? m = some info)
    (he : e.item.IsDefined m info) (hn : ix.equal? legacy e.item = none) :
    (ix.add e).entries.Perm (e :: ix.entries) := by
  rw [Index.add, he.material]
  apply entries_addTo
  intro b hb
  have new := hx.not_agrees he hn
  rw [hb] at new
  exact (hx.buckets m b hb).entries_add hi he new

theorem grows_add (hx : ix.Sound p) (hi : p.info? m = some info) (he : e.item.IsDefined m info)
    (hn : ix.equal? legacy e.item = none) : Grows ix (ix.add e) where
  entries := by
    intro x hx'
    exact (hx.entries_add hi he hn).mem_iff.mpr (List.mem_cons_of_mem e hx')
  bare := by
    intro n b d hb hd
    rw [Index.add, he.material]
    by_cases h : n = m
    · have new := hx.not_agrees he hn
      subst h
      rw [hb] at new
      refine ⟨b.add e, ?_, (hx.buckets n b hb).bare_add hi he new hd⟩
      simp only [bucket?_addTo_self e hx.sorted, hb, Option.getD_some]
    · exact ⟨b, (bucket?_addTo_of_ne h e ix).trans hb, hd⟩

end Sound

end ItemLexicon.Index
