import ItemLexicon.Proofs.NestedPhrases
import ItemLexicon.Proofs.Reporting

namespace ItemLexicon.Pattern

/-- Among the brackets of one kind, which is named by the closing one, no beginning of the text
closes more than it opens, and the text closes all. -/
structure IsBalanced (bracket : Char) (s : List Char) : Prop where
  prefixes : ∀ p, p <+: s → p.count bracket ≤ p.count (opener bracket)
  total : s.count bracket = s.count (opener bracket)

theorem first_group_induction {P : List Char → Prop}
    (open' : ∀ s, (∀ c ∈ s, isCloser c = false) → P s)
    (surplus : ∀ before bracket after, isCloser bracket = true →
      (∀ c ∈ before, isCloser c = false) → opener bracket ∉ before →
      P (before ++ bracket :: after))
    (group : ∀ before body bracket after, isCloser bracket = true →
      (∀ c ∈ before, isCloser c = false) → (∀ c ∈ body, isCloser c = false) →
      opener bracket ∉ body → (∀ t ∈ rewrites bracket before body after, P t) →
      P (before ++ opener bracket :: body ++ bracket :: after))
    (s : List Char) : P s := by
  induction n : s.countP isCloser generalizing s with
  | zero =>
    apply open'
    intro c hc
    simpa using List.countP_eq_zero.mp n c hc
  | succ n' ih =>
    rcases closer_cases s with none' | ⟨before, bracket, after, rfl, hb, h, ho⟩ |
      ⟨before, body, bracket, after, rfl, hb, h, hi, ho⟩
    · exact open' s none'
    · exact surplus before bracket after hb h ho
    · refine group before body bracket after hb h hi ho fun t ht => ih t ?_
      rw [countP_append_closer (open_append h hi bracket) hb] at n
      rw [countP_of_mem_rewrites h hi ht]
      exact Nat.succ.inj n

theorem isGroupMark_of_unclosed? {s : List Char} (h : ∀ c ∈ s, isCloser c = false)
    (closed : unclosed? s = none) : ∀ c ∈ s, isGroupMark c = false := by
  intro c hc
  have unmarked := (any_isGroupMark_of_open h).mpr closed
  rw [List.any_eq_false] at unmarked
  exact Bool.not_eq_true _ ▸ unmarked c hc

theorem isGroupMark_of_ok {s w : List Char} (h : .ok w ∈ results s) :
    ∀ c ∈ w, isGroupMark c = false := by
  induction s using first_group_induction with
  | open' s open' =>
    rw [results, outcomes_of_open open'] at h
    cases closed : unclosed? s with
    | none =>
      rw [closed] at h
      cases List.mem_singleton.mp h
      exact isGroupMark_of_unclosed? open' closed
    | some fault =>
      rw [closed] at h
      cases List.mem_singleton.mp h
  | surplus before bracket after hb open' ho =>
    rw [results, countP_append_closer open' hb, outcomes_of_surplus open' hb ho] at h
    cases List.mem_singleton.mp h
  | group before body bracket after hb open' hi ho ih =>
    rw [results_of_first_group open' hi hb ho, List.mem_flatMap] at h
    obtain ⟨t, ht, h⟩ := h
    exact ih t ht h

theorem alternatives_of_pos {n : Nat} (hn : 0 < n) {s : List Char}
    (h : ∀ c ∈ s, isCloser c = false) : alternatives n s = [s] := by
  induction s generalizing n with
  | nil => rfl
  | cons c s ih =>
    rw [List.forall_mem_cons] at h
    have deeper : 0 < depthAfter n c := by
      rw [depthAfter, h.1]
      split <;> simp [hn]
    rw [alternatives_cons fun bar => Nat.ne_of_gt hn bar.2, ih deeper h.2]
    rfl

theorem exists_alternative {s : List Char} (h : ∀ c ∈ s, isCloser c = false) :
    ∃ p ∈ alternatives 0 s, p.filter isGroupMark = s.filter isGroupMark := by
  induction s with
  | nil => exact ⟨[], List.mem_singleton_self _, rfl⟩
  | cons c s ih =>
    rw [List.forall_mem_cons] at h
    by_cases bar : c = '|'
    · subst bar
      obtain ⟨p, hp, same⟩ := ih h.2
      exact ⟨p, List.mem_cons_of_mem _ hp, same⟩
    · rw [alternatives_cons fun both => bar both.1]
      cases mark : isGroupMark c with
      | true =>
        have deeper : 0 < depthAfter 0 c := by
          have opens := mark
          rw [isGroupMark, h.1, Bool.or_false] at opens
          rw [depthAfter, if_pos (by rwa [Bool.or_comm])]
          exact Nat.one_pos
        rw [alternatives_of_pos deeper h.2]
        exact ⟨c :: s, List.mem_singleton_self _, rfl⟩
      | false =>
        have level : depthAfter 0 c = 0 := by
          simp only [isGroupMark, Bool.or_eq_false_iff] at mark
          simp [depthAfter, mark]
        obtain ⟨p, hp, same⟩ := ih h.2
        rw [level]
        cases parts : alternatives 0 s with
        | nil => exact absurd parts (alternatives_ne_nil _ _)
        | cons first rest =>
          rw [parts] at hp
          rw [List.modifyHead_cons, List.filter_cons_of_neg (by simp [mark])]
          rcases List.mem_cons.mp hp with rfl | hp
          · refine ⟨c :: p, List.mem_cons_self, ?_⟩
            rwa [List.filter_cons_of_neg (by simp [mark])]
          · exact ⟨p, List.mem_cons_of_mem _ hp, same⟩

theorem exists_rewrite (bracket : Char) (before after : List Char) {body : List Char}
    (h : ∀ c ∈ body, isCloser c = false) :
    ∃ kept, before ++ kept ++ after ∈ rewrites bracket before body after ∧
      kept.filter isGroupMark = body.filter isGroupMark := by
  rw [rewrites]
  split
  · exact ⟨body, List.mem_cons_self, rfl⟩
  · obtain ⟨p, hp, same⟩ := exists_alternative h
    exact ⟨p, List.mem_map.mpr ⟨p, hp, rfl⟩, same⟩

namespace IsBalanced

variable {bracket : Char} {s t : List Char}

theorem count_eq (same : s.filter isGroupMark = t.filter isGroupMark) {c : Char}
    (mark : isGroupMark c = true) : s.count c = t.count c := by
  rw [← List.count_filter (p := isGroupMark) mark, same, List.count_filter mark]

theorem isGroupMark_opener (bracket : Char) : isGroupMark (opener bracket) = true := by
  rw [opener]
  split <;> rfl

theorem of_unmarked (h : ∀ c ∈ s, isGroupMark c = false) (hb : isCloser bracket = true) :
    IsBalanced bracket s := by
  have none' : ∀ p, p <+: s → ∀ c, isGroupMark c = true → p.count c = 0 := by
    intro p hp c mark
    rw [List.count_eq_zero]
    intro hc
    rw [h c (hp.subset hc)] at mark
    cases mark
  have mark : isGroupMark bracket = true := by simp [isGroupMark, hb]
  refine ⟨fun p hp => ?_, ?_⟩
  · rw [none' p hp bracket mark]
    exact Nat.zero_le _
  · rw [none' s List.prefix_rfl bracket mark,
      none' s List.prefix_rfl _ (isGroupMark_opener bracket)]

theorem of_rewrite {closer : Char} {before body kept after : List Char}
    (h : ∀ c ∈ before, isCloser c = false) (hi : ∀ c ∈ body, isCloser c = false)
    (ho : opener closer ∉ body) (hc : isCloser closer = true) (hb : isCloser bracket = true)
    (same : kept.filter isGroupMark = body.filter isGroupMark)
    (balanced : IsBalanced bracket (before ++ kept ++ after)) :
    IsBalanced bracket (before ++ opener closer :: body ++ closer :: after) := by
  have none' : ∀ {s : List Char}, (∀ c ∈ s, isCloser c = false) → s.count bracket = 0 := by
    intro s open'
    rw [List.count_eq_zero]
    intro mem
    rw [open' bracket mem] at hb
    cases hb
  have front := none' (open_append h hi closer)
  have mark : isGroupMark bracket = true := by simp [isGroupMark, hb]
  have closes : kept.count bracket = 0 := by rw [count_eq same mark, none' hi]
  have opens := count_eq same (isGroupMark_opener bracket)
  -- the two brackets of the group are of the kind in question or not, both of them
  have pair : [opener closer].count (opener bracket) = [closer].count bracket ∧
      [closer].count (opener bracket) = 0 := by
    have kind : closer = ']' ∨ closer = ')' := by simpa [isCloser] using hc
    have kind' : bracket = ']' ∨ bracket = ')' := by simpa [isCloser] using hb
    rcases kind with rfl | rfl <;> rcases kind' with rfl | rfl <;> decide
  have whole : ∀ q, (before ++ opener closer :: body ++ closer :: q).count (opener bracket) =
      (before ++ kept ++ q).count (opener bracket) + [closer].count bracket := by
    intro q
    rw [List.count_append, List.count_append, List.count_append, List.count_append, opens,
      ← List.singleton_append (x := closer), ← List.singleton_append (x := opener closer),
      List.count_append, List.count_append, pair.1, pair.2]
    omega
  have whole' : ∀ q, (before ++ opener closer :: body ++ closer :: q).count bracket =
      (before ++ kept ++ q).count bracket + [closer].count bracket := by
    intro q
    rw [List.count_append, front, List.count_append, List.count_append, none' h, closes,
      ← List.singleton_append (x := closer), List.count_append]
    omega
  refine ⟨fun p hp => ?_, by rw [whole, whole', balanced.total]⟩
  rcases List.prefix_or_prefix_of_prefix hp (List.prefix_append _ _) with inFront | ⟨q, rfl⟩
  · rw [none' fun c mem => open_append h hi closer c (inFront.subset mem)]
    exact Nat.zero_le _
  · rw [List.prefix_append_right_inj, List.prefix_cons_iff] at hp
    rcases hp with rfl | ⟨q, rfl, behind⟩
    · rw [List.append_nil, front]
      exact Nat.zero_le _
    · rw [whole, whole']
      exact Nat.add_le_add_right (balanced.prefixes _ ((List.prefix_append_right_inj _).mpr behind)) _

end IsBalanced

theorem exists_error {bracket : Char} (hb : isCloser bracket = true) {s : List Char}
    (unbalanced : ¬IsBalanced bracket s) : ∃ fault, .error fault ∈ results s := by
  induction s using first_group_induction with
  | open' s open' =>
    rw [results, outcomes_of_open open']
    cases closed : unclosed? s with
    | none =>
      exact absurd (.of_unmarked (isGroupMark_of_unclosed? open' closed) hb) unbalanced
    | some fault => exact ⟨fault, List.mem_singleton_self _⟩
  | surplus before closer after hc open' ho =>
    rw [results, countP_append_closer open' hc, outcomes_of_surplus open' hc ho]
    exact ⟨_, List.mem_singleton_self _⟩
  | group before body closer after hc open' hi ho ih =>
    obtain ⟨kept, stands, same⟩ := exists_rewrite closer before after hi
    obtain ⟨fault, found⟩ := ih _ stands fun balanced =>
      unbalanced (balanced.of_rewrite open' hi ho hc hb same)
    refine ⟨fault, ?_⟩
    rw [results_of_first_group open' hi hc ho]
    exact List.mem_flatMap.mpr ⟨_, stands, found⟩

theorem IsNested.isOk_results {s : List Char} (h : IsNested s) {o : Except Fault (List Char)}
    (ho : o ∈ results s) : ∃ w, o = .ok w := by
  obtain ⟨p, nested, rfl⟩ := h.exists_phrase
  obtain ⟨w, -, named⟩ := (Phrase.mem_results_text_of_isNested nested).mp ho
  exact ⟨w, named⟩

theorem mem_faults_expand_iff {s : List Char} {fault : Fault} :
    fault ∈ (expand s).faults ↔ .error fault ∈ results s := by
  rw [expand, ← results, Expansion.ofOutcomes, List.mem_eraseDups, List.mem_filterMap]
  constructor
  · rintro ⟨o, ho, found⟩
    cases o with
    | ok w => cases found
    | error fault' =>
      cases found
      exact ho
  · exact fun h => ⟨_, h, rfl⟩

theorem mem_names_expand_iff {s w : List Char} : w ∈ (expand s).names ↔ .ok w ∈ results s := by
  rw [expand, ← results, Expansion.ofOutcomes, List.mem_eraseDups, List.mem_filterMap]
  constructor
  · rintro ⟨o, ho, found⟩
    cases o with
    | ok w' =>
      cases found
      exact ho
    | error fault => cases found
  · exact fun h => ⟨_, h, rfl⟩

/-- Brackets without partner are reported, brackets in pairs are not, every pattern has a name or a
fault, and names have no brackets. -/
theorem Expander.expand_brackets (x : Expander) (s : List Char) :
    (¬IsBalanced ']' s ∨ ¬IsBalanced ')' s → (x.expand s).1.faults ≠ []) ∧
      (IsNested s → (x.expand s).1.faults = []) ∧
      ¬((x.expand s).1.names = [] ∧ (x.expand s).1.faults = []) ∧
      ∀ w ∈ (x.expand s).1.names, ∀ c ∈ w, isGroupMark c = false := by
  rw [expand_fst]
  refine ⟨fun unbalanced => ?_, fun nested => ?_, fun both => ?_, fun w hw => ?_⟩
  · obtain ⟨fault, found⟩ := unbalanced.elim (exists_error rfl) (exists_error rfl)
    exact List.ne_nil_of_mem (mem_faults_expand_iff.mpr found)
  · rw [List.eq_nil_iff_forall_not_mem]
    intro fault reported
    obtain ⟨w, named⟩ := nested.isOk_results (mem_faults_expand_iff.mp reported)
    cases named
  · exact names_expand_ne_nil both.2 both.1
  · exact isGroupMark_of_ok (mem_names_expand_iff.mp hw)

/-- Groups that cross are not nested, and still each bracket has its partner. -/
example : (Expander.new.expand "(a[b)c]".toList).1.faults = [] := by decide

end ItemLexicon.Pattern
