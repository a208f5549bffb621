import ItemLexicon.Proofs.Combinations
import ItemLexicon.Proofs.ProperVariation
import Mathlib.Data.List.Induction

namespace ItemLexicon.Expansion

def isBrace (c : Char) : Bool := c == '\x7b' || c == '\x7d'

def IsPlain (s : List Char) : Prop := ∀ c ∈ s, isBrace c = false

instance (s : List Char) : Decidable (IsPlain s) :=
  List.decidableBAll (fun c => isBrace c = false) s

inductive Template
  | text (s : List Char) (plain : IsPlain s)
  | group (before inner : List Char) (plain : IsPlain before) (named : IsPlain inner)
    (rest : Template)

namespace Template

def spell : Template → List Char
  | text s _ => s
  | group before inner _ _ rest => before ++ '\x7b' :: (inner ++ '\x7d' :: rest.spell)

def keys : Template → List String
  | text _ _ => []
  | group _ inner _ _ rest => String.ofList ('\x7b' :: (inner ++ ['\x7d'])) :: rest.keys

def slots : Template → List VariationGroup → List Slot
  | text s _, _ => [.text s]
  | group before _ _ _ rest, g :: gs => .text before :: .group g :: rest.slots gs
  | group before _ _ _ _, [] => [.text before]

def reels : Template → List Pick → List Reel
  | text s _, _ => [.text s]
  | group before _ _ _ rest, p :: ps => .text before :: .entry p :: rest.reels ps
  | group before _ _ _ _, [] => [.text before]

def fill : Template → List Pick → List Char
  | text s _, _ => s
  | group before _ _ _ rest, p :: ps => before ++ p.key ++ rest.fill ps
  | group before _ _ _ _, [] => before

theorem filter_isBrace_spell (t : Template) :
    t.spell.filter isBrace = (List.replicate t.keys.length ['\x7b', '\x7d']).flatten := by
  have none : ∀ {s}, IsPlain s → s.filter isBrace = [] := by
    intro s plain
    rw [List.filter_eq_nil_iff]
    exact fun c hc => Bool.eq_false_iff.mp (plain c hc)
  induction t with
  | text s plain => exact none plain
  | group before inner plain named rest ih =>
    have opens : isBrace '\x7b' = true := rfl
    have closes : isBrace '\x7d' = true := rfl
    simp [spell, keys, List.replicate_succ, none plain, none named, opens, closes, ih]

theorem exists_spell_iff {name : List Char} {k : Nat} :
    (∃ t : Template, t.spell = name ∧ t.keys.length = k) ↔
      name.filter isBrace = (List.replicate k ['\x7b', '\x7d']).flatten := by
  constructor
  · rintro ⟨t, rfl, rfl⟩
    exact t.filter_isBrace_spell
  · induction k generalizing name with
    | zero =>
      intro none
      refine ⟨text name fun c hc => ?_, rfl, rfl⟩
      exact Bool.eq_false_iff.mpr (List.filter_eq_nil_iff.mp none c hc)
    | succ k ih =>
      intro braces
      rw [List.replicate_succ, List.flatten_cons] at braces
      obtain ⟨before, s, rfl, plain, -, braces⟩ := List.filter_eq_cons_iff.mp braces
      obtain ⟨inner, s, rfl, named, -, braces⟩ := List.filter_eq_cons_iff.mp braces
      obtain ⟨rest, rfl, rfl⟩ := ih braces
      refine ⟨group before inner (fun c hc => Bool.eq_false_iff.mpr (plain c hc))
        (fun c hc => Bool.eq_false_iff.mpr (named c hc)) rest, ?_, rfl⟩
      simp [spell]

end Template

section Cutting

variable {find : String → Option VariationGroup} (n : Nat) (before : List Char)

theorem slots_plain {s : List Char} (plain : IsPlain s) (u : List Char) :
    slots find ⟨n, before, none⟩ (s ++ u) = slots find ⟨n + s.length, before ++ s, none⟩ u := by
  induction s generalizing n before with
  | nil => simp
  | cons c s ih =>
    obtain ⟨hc, plain⟩ := List.forall_mem_cons.mp plain
    rw [List.cons_append, slots]
    · refine (ih (n + 1) (before ++ [c]) plain).trans ?_
      simp [Nat.add_assoc, Nat.add_comm 1]
    · rintro rfl
      cases hc
    · rintro rfl
      cases hc

theorem slots_opened (start : Nat) (inner : List Char) {s : List Char} (plain : IsPlain s)
    (u : List Char) :
    slots find ⟨n, before, some (start, inner)⟩ (s ++ u) =
      slots find ⟨n + s.length, before, some (start, inner ++ s)⟩ u := by
  induction s generalizing n inner with
  | nil => simp
  | cons c s ih =>
    obtain ⟨hc, plain⟩ := List.forall_mem_cons.mp plain
    rw [List.cons_append, slots]
    · refine (ih (n + 1) (inner ++ [c]) plain).trans ?_
      simp [Nat.add_assoc, Nat.add_comm 1]
    · rintro rfl
      cases hc
    · rintro rfl
      cases hc

theorem slots_spell {t : Template} {gs : List VariationGroup}
    (known : List.Forall₂ (fun key g => find key = some g) t.keys gs) :
    slots find ⟨n, [], none⟩ t.spell = (t.slots gs, []) := by
  induction t generalizing n gs with
  | text s plain =>
    have whole : slots find ⟨n, [], none⟩ (s ++ []) = slots find ⟨n + s.length, s, none⟩ [] :=
      slots_plain n [] plain []
    rw [List.append_nil] at whole
    rw [Template.spell, whole, slots, Template.slots]
  | group before inner plain named rest ih =>
    cases known with
    | cons found known =>
      rw [Template.spell, slots_plain _ _ plain, List.nil_append, slots,
        slots_opened _ _ _ _ named, slots]
      simp only [List.cons_append, List.nil_append]
      rw [ih _ known, found]
      rfl

end Cutting

namespace Template

variable {t : Template} {gs : List VariationGroup} {ps : List Pick} {rs : List Reel}

theorem picks_reels (h : ps.length = t.keys.length) : picks (t.reels ps) = ps := by
  induction t generalizing ps with
  | text s => exact (List.length_eq_zero_iff.mp h).symm
  | group before inner _ _ rest ih =>
    cases ps with
    | nil => cases h
    | cons p ps => rw [reels, picks_text, picks_entry, ih (Nat.succ.inj h)]

theorem slot_reels (t : Template) (ps : List Pick) :
    (t.reels ps).map Reel.slot = t.slots (ps.map Pick.group) := by
  induction t generalizing ps with
  | text s => rfl
  | group before inner _ _ rest ih =>
    cases ps with
    | nil => rfl
    | cons p ps => rw [reels, List.map_cons, List.map_cons, ih]; rfl

theorem spelling_reels (t : Template) (ps : List Pick) :
    (t.reels ps).flatMap Reel.spelling = t.fill ps := by
  induction t generalizing ps with
  | text s => exact List.append_nil s
  | group before inner _ _ rest ih =>
    cases ps with
    | nil => exact List.append_nil before
    | cons p ps =>
      rw [reels, List.flatMap_cons, List.flatMap_cons, ih, fill, List.append_assoc]
      rfl

theorem eq_reels (h : gs.length = t.keys.length) (slots : rs.map Reel.slot = t.slots gs) :
    (picks rs).map Pick.group = gs ∧ rs = t.reels (picks rs) := by
  induction t generalizing gs rs with
  | text s =>
    obtain ⟨r, rfl, hr⟩ := List.map_eq_singleton_iff.mp slots
    cases r with
    | entry => cases hr
    | text =>
      cases hr
      exact ⟨(List.length_eq_zero_iff.mp h).symm, rfl⟩
  | group before inner _ _ rest ih =>
    cases gs with
    | nil => cases h
    | cons g gs =>
      -- A reference takes two reels, one for the text before it and one for its group.
      obtain ⟨r, rs, rfl, hr, slots⟩ := List.map_eq_cons_iff.mp slots
      obtain ⟨r', rs, rfl, hr', slots⟩ := List.map_eq_cons_iff.mp slots
      obtain ⟨groups, eq⟩ := ih (Nat.succ.inj h) slots
      cases r with
      | entry => cases hr
      | text =>
        cases r' with
        | text => cases hr'
        | entry p =>
          cases hr
          cases hr'
          refine ⟨by rw [picks_text, picks_entry, List.map_cons, groups], ?_⟩
          rw [picks_text, picks_entry, reels, ← eq]

theorem size_pos_of_mem_slots (sizes : ∀ g ∈ gs, 0 < g.size) :
    ∀ g, .group g ∈ t.slots gs → 0 < g.size := by
  induction t generalizing gs with
  | text s => intro g hg; cases hg with | tail _ hg => cases hg
  | group before inner _ _ rest ih =>
    cases gs with
    | nil => intro g hg; cases hg with | tail _ hg => cases hg
    | cons g gs =>
      intro g' hg'
      rw [slots, List.mem_cons, List.mem_cons] at hg'
      rcases hg' with hg' | hg' | hg'
      · cases hg'
      · cases hg'
        exact sizes g List.mem_cons_self
      · exact ih (fun g hg => sizes g (List.mem_cons_of_mem _ hg)) g' hg'

end Template

/-- The variations of a combination, each laid over those to its left. -/
def overlay (ps : List Pick) : Variation := ps.foldl (fun v p => v.absorb p.variation) .empty

/-- Everything in the variation is that of the rightmost entry that has it. -/
structure IsOverlay (ps : List Pick) (v : Variation) : Prop where
  id : v.id = ps.reverse.findSome? fun p => p.variation.id
  insertPoint : v.insertPoint = ps.reverse.findSome? fun p => p.variation.insertPoint
  tags : ∀ key, Dictionary.get? key v.tags =
    ps.reverse.findSome? fun p => Dictionary.get? key p.variation.tags
  states : ∀ key, Dictionary.get? key v.states =
    ps.reverse.findSome? fun p => Dictionary.get? key p.variation.states

theorem read_foldl_absorb {α : Type} {f : Variation → Option α} {ps : List Pick}
    (h : ∀ p ∈ ps, ∀ v : Variation, f (v.absorb p.variation) = (f p.variation).or (f v))
    (v : Variation) :
    f (ps.foldl (fun v p => v.absorb p.variation) v) =
      (ps.reverse.findSome? fun p => f p.variation).or (f v) := by
  induction ps generalizing v with
  | nil => rfl
  | cons p ps ih =>
    rw [List.forall_mem_cons] at h
    rw [List.foldl_cons, ih h.2, h.1, List.reverse_cons, List.findSome?_append, Option.or_assoc]
    congr 2
    cases hp : f p.variation <;> simp [hp]

theorem isOverlay_overlay {ps : List Pick} (proper : ∀ p ∈ ps, p.variation.IsProper) :
    IsOverlay ps (overlay ps) := by
  have rightmost : ∀ {α : Type} {f : Variation → Option α}, f .empty = none →
      (∀ p ∈ ps, ∀ v : Variation, f (v.absorb p.variation) = (f p.variation).or (f v)) →
      f (overlay ps) = ps.reverse.findSome? fun p => f p.variation := by
    intro α f empty h
    rw [overlay, read_foldl_absorb h, empty, Option.or_none]
  refine ⟨?_, ?_, ?_, ?_⟩
  · exact rightmost rfl fun p _ v => rfl
  · exact rightmost rfl fun p _ v => rfl
  · intro key
    exact rightmost (f := fun v => Dictionary.get? key v.tags) rfl fun p hp v =>
      Dictionary.get?_merge (proper p hp).tags.nodup key v.tags
  · intro key
    exact rightmost (f := fun v => Dictionary.get? key v.states) rfl fun p hp v =>
      Dictionary.get?_merge (proper p hp).states.nodup key v.states

section Collecting

variable (n : List Char) (v : Variation) (named : Named)

theorem keys_put : (put n v named).map Prod.fst =
    if n ∈ named.map Prod.fst then named.map Prod.fst else named.map Prod.fst ++ [n] := by
  induction named with
  | nil => rfl
  | cons e named ih =>
    obtain ⟨m, w⟩ := e
    rw [put]
    split
    · rename_i same
      simp [same]
    · rename_i other
      rw [List.map_cons, List.map_cons, ih]
      simp only [List.mem_cons, Ne.symm other, false_or]
      split <;> rfl

variable {n v named}

theorem mem_put {q : List Char × Variation} (distinct : (named.map Prod.fst).Nodup)
    (hq : q ∈ put n v named) : q = (n, v) ∨ q ∈ named ∧ q.1 ≠ n := by
  induction named with
  | nil => exact .inl (List.mem_singleton.mp hq)
  | cons e named ih =>
    obtain ⟨m, w⟩ := e
    obtain ⟨new, distinct⟩ := List.nodup_cons.mp distinct
    rw [put] at hq
    split at hq
    · rename_i same
      subst same
      rcases List.mem_cons.mp hq with rfl | hq
      · exact .inl rfl
      · refine .inr ⟨List.mem_cons_of_mem _ hq, fun eq => new ?_⟩
        have key : q.1 ∈ named.map Prod.fst := List.mem_map_of_mem hq
        rwa [eq] at key
    · rename_i other
      rcases List.mem_cons.mp hq with rfl | hq
      · exact .inr ⟨List.mem_cons_self, other⟩
      · rcases ih distinct hq with rfl | ⟨hq, ne⟩
        · exact .inl rfl
        · exact .inr ⟨List.mem_cons_of_mem _ hq, ne⟩

def collect (all : Named) : Named := all.foldl (fun named q => put q.1 q.2 named) []

theorem collect_append (all : Named) (q : List Char × Variation) :
    collect (all ++ [q]) = put q.1 q.2 (collect all) := by
  rw [collect, List.foldl_append]
  rfl

theorem nodup_keys_collect (all : Named) : ((collect all).map Prod.fst).Nodup := by
  induction all using List.reverseRecOn with
  | nil => exact List.nodup_nil
  | append_singleton all q ih =>
    rw [collect_append, keys_put]
    split
    · exact ih
    · rename_i new
      exact List.Nodup.append ih (List.nodup_singleton _) (List.disjoint_singleton.mpr new)

theorem keys_collect (all : Named) : (collect all).map Prod.fst = (all.map Prod.fst).eraseDups := by
  induction all using List.reverseRecOn with
  | nil => rfl
  | append_singleton all q ih =>
    rw [collect_append, keys_put, ih, List.map_append, List.eraseDups_append]
    simp only [List.mem_eraseDups, List.map_cons, List.map_nil]
    split
    · rename_i known
      simp [List.removeAll, known]
    · rename_i new
      have single : [q.1].eraseDups = [q.1] := rfl
      simp [List.removeAll, new, single]

theorem exists_last_of_mem_collect {α : Type} {f : α → List Char × Variation} {all : List α}
    {q : List Char × Variation} (hq : q ∈ collect (all.map f)) :
    ∃ before a after, all = before ++ a :: after ∧ f a = q ∧ ∀ b ∈ after, (f b).1 ≠ q.1 := by
  induction all using List.reverseRecOn with
  | nil => cases hq
  | append_singleton all a ih =>
    rw [List.map_append, List.map_singleton, collect_append] at hq
    rcases mem_put (nodup_keys_collect _) hq with rfl | ⟨hq, ne⟩
    · exact ⟨all, a, [], rfl, rfl, by simp⟩
    · obtain ⟨before, b, after, rfl, found, last⟩ := ih hq
      refine ⟨before, b, after ++ [a], by simp, found, ?_⟩
      rw [List.forall_mem_append]
      exact ⟨last, by simpa using Ne.symm ne⟩

end Collecting

/-- Every combination of entries of the groups is listed once, the leftmost entry changing
fastest. -/
structure Enumerates (gs : List VariationGroup) (tuples : List (List Pick)) : Prop where
  nodup : tuples.Nodup
  mem_iff : ∀ ps, ps ∈ tuples ↔ ps.map Pick.group = gs
  order : tuples.map index = List.range tuples.length

section Templates

variable {t : Template} {gs : List VariationGroup} {rs : List Reel} {fuel : Nat}

theorem enumerates_passes (arity : gs.length = t.keys.length)
    (slots : rs.map Reel.slot = t.slots gs) (zero : index (picks rs) = 0)
    (enough : volume rs ≤ fuel) : Enumerates gs ((passes fuel rs).map fun q => picks q.1) := by
  obtain ⟨nodup, visited, numbers⟩ := passes_complete zero enough
  have states : ((passes fuel rs).map fun q => picks q.1) =
      ((passes fuel rs).map Prod.fst).map picks := by
    rw [List.map_map]
    rfl
  have length : ((passes fuel rs).map Prod.fst).length = volume rs := by
    simpa using congrArg List.length numbers
  rw [states]
  refine ⟨nodup.map_on fun rs₁ h₁ rs₂ h₂ eq => ?_, fun ps => ⟨?_, fun groups => ?_⟩, ?_⟩
  · have eq₁ := (Template.eq_reels arity (((visited rs₁).mp h₁).trans slots)).2
    have eq₂ := (Template.eq_reels arity (((visited rs₂).mp h₂).trans slots)).2
    rw [eq₁, eq₂, eq]
  · intro found
    obtain ⟨rs', hrs', rfl⟩ := List.mem_map.mp found
    exact (Template.eq_reels arity (((visited rs').mp hrs').trans slots)).1
  · have here : t.reels ps ∈ (passes fuel rs).map Prod.fst := by
      rw [visited, slots, Template.slot_reels, groups]
    have same := List.mem_map_of_mem (f := picks) here
    rwa [Template.picks_reels (by rw [← arity, ← groups, List.length_map])] at same
  · rw [List.map_map, List.length_map, length]
    exact numbers

theorem map_passes {α : Type} (arity : gs.length = t.keys.length)
    (slots : rs.map Reel.slot = t.slots gs) (f : List Pick → List Char → Variation → α) :
    ((passes fuel rs).map fun q => f (picks q.1) q.2.name q.2.variation) =
      ((passes fuel rs).map fun q => picks q.1).map fun ps => f ps (t.fill ps) (overlay ps) := by
  rw [List.map_map]
  apply List.map_congr_left
  intro q hq
  obtain ⟨same, read⟩ := pass_of_mem hq
  have name : q.2.name = t.fill (picks q.1) := by
    rw [← Template.spelling_reels, ← (Template.eq_reels arity (same.trans slots)).2, read, name_run]
    rfl
  have variation : q.2.variation = overlay (picks q.1) := by
    rw [read, variation_run]
    rfl
  rw [name, variation]
  rfl

theorem ofSlots_eq_collect {ss : List Slot} (first : ss.mapM Reel.first? = some rs) :
    ofSlots ss = collect ((passes (volume rs) rs).map fun q =>
      (Noun.normal q.2.name, q.2.variation)) := by
  rw [ofSlots, first, collect, List.foldl_map]

theorem exists_normal_of_mem_ofName {find : String → Option VariationGroup} {name : List Char}
    {q : List Char × Variation} (hq : q ∈ (ofName find name).1) : ∃ s, q.1 = Noun.normal s := by
  have listed : q ∈ ofSlots (slots find ⟨0, [], none⟩ name).1 := hq
  cases first : (slots find ⟨0, [], none⟩ name).1.mapM Reel.first? with
  | none =>
    simp only [ofSlots, first] at listed
    cases listed
  | some rs =>
    rw [ofSlots_eq_collect first] at listed
    obtain ⟨-, pass, -, -, rfl, -⟩ := exists_last_of_mem_collect listed
    exact ⟨pass.2.name, rfl⟩

theorem ofSlots_eq (first : (t.slots gs).mapM Reel.first? = some rs)
    (arity : gs.length = t.keys.length) (slots : rs.map Reel.slot = t.slots gs) :
    ofSlots (t.slots gs) = collect (((passes (volume rs) rs).map fun q => picks q.1).map fun ps =>
      (Noun.normal (t.fill ps), overlay ps)) := by
  rw [← map_passes arity slots fun _ name v => (Noun.normal name, v), ofSlots_eq_collect first]

/-- The passes go through all combinations of entries.  The names are listed in the order in which
they come up, each with the variation of the last combination that gives it. -/
theorem ofName_spell {find : String → Option VariationGroup}
    (known : List.Forall₂ (fun key g => find key = some g) t.keys gs)
    (sizes : ∀ g ∈ gs, 0 < g.size) (proper : ∀ g ∈ gs, g.IsProper) :
    ∃ tuples, Enumerates gs tuples ∧
      (∃ rs, (slots find ⟨0, [], none⟩ t.spell).1.mapM Reel.first? = some rs ∧
        ∀ fuel, tuples.length ≤ fuel →
          ((passes fuel rs).map fun q => (picks q.1, q.2.name, q.2.variation)) =
            tuples.map fun ps => (ps, t.fill ps, overlay ps)) ∧
      (ofName find t.spell).2 = [] ∧
      (ofName find t.spell).1.map Prod.fst =
        (tuples.map fun ps => Noun.normal (t.fill ps)).eraseDups ∧
      ∀ name v, (name, v) ∈ (ofName find t.spell).1 → ∃ before ps after,
        tuples = before ++ ps :: after ∧ Noun.normal (t.fill ps) = name ∧
        (∀ qs ∈ after, Noun.normal (t.fill qs) ≠ name) ∧ v = overlay ps ∧ IsOverlay ps v := by
  have arity : gs.length = t.keys.length := known.length_eq.symm
  have cut : slots find ⟨0, [], none⟩ t.spell = (t.slots gs, []) := slots_spell 0 known
  obtain ⟨rs, first, slots, zero⟩ := exists_first (Template.size_pos_of_mem_slots (t := t) sizes)
  have enumerates := enumerates_passes arity slots zero le_rfl
  have count : ((passes (volume rs) rs).map fun q => picks q.1).length = volume rs := by
    rw [List.length_map]
    simpa using congrArg List.length (passes_complete zero le_rfl).2.2
  have result : (ofName find t.spell).1 = ofSlots (t.slots gs) := by rw [ofName, cut]
  rw [ofSlots_eq first arity slots] at result
  refine ⟨_, enumerates, ⟨rs, ?_, fun fuel enough => ?_⟩, ?_, ?_, fun name v named => ?_⟩
  · rw [cut]
    exact first
  · rw [count] at enough
    rw [passes_eq (by rw [zero, Nat.zero_add]) enough]
    exact map_passes arity slots fun ps name v => (ps, name, v)
  · rw [ofName, cut]
  · rw [result, keys_collect, List.map_map]
    rfl
  · rw [result] at named
    obtain ⟨before, ps, after, tuples, entry, last⟩ := exists_last_of_mem_collect named
    cases entry
    refine ⟨before, ps, after, tuples, rfl, last, rfl, isOverlay_overlay fun p hp => ?_⟩
    have groups : ps.map Pick.group = gs := by
      rw [← enumerates.mem_iff, tuples]
      simp
    have listed : p.group ∈ gs := by
      rw [← groups]
      exact List.mem_map_of_mem hp
    exact proper p.group listed _ (List.get_mem ..)

end Templates

theorem ofName_spell_of_mossy :
    let g : VariationGroup := ⟨[("", .empty), ("mossy", ⟨some "mossy_-", some 6, [], []⟩)]⟩
    let find (key : String) : Option VariationGroup := if key = "\x7bmossy\x7d" then some g else none
    let mossy (before : List Char) (plain : IsPlain before) (rest : Template) : Template :=
      .group before "mossy".toList plain (by decide) rest
    let t := mossy [] (by decide) (mossy [' '] (by decide) (.text " stone".toList (by decide)))
    t.spell = "\x7bmossy\x7d \x7bmossy\x7d stone".toList ∧
      ((ofName find t.spell).1.map fun q => (String.ofList q.1, q.2.id)) =
        [("stone", none), ("mossy stone", some "mossy_-"),
          ("mossy mossy stone", some "mossy_-")] ∧
      ∃ tuples, Enumerates [g, g] tuples ∧
        (ofName find t.spell).1.map Prod.fst =
          (tuples.map fun ps => Noun.normal (t.fill ps)).eraseDups := by
  intro g find mossy t
  have found : find (String.ofList ('\x7b' :: ("mossy".toList ++ ['\x7d']))) = some g :=
    if_pos (by decide)
  have known : List.Forall₂ (fun key g => find key = some g) t.keys [g, g] :=
    .cons found (.cons found .nil)
  have proper : ∀ g' ∈ [g, g], g'.IsProper := by
    have entries : g.IsProper := by
      simp only [VariationGroup.IsProper, g, List.forall_mem_cons]
      exact ⟨Variation.isProper_empty, ⟨by decide, by decide⟩, by simp⟩
    simpa using entries
  obtain ⟨tuples, all, -, -, names, -⟩ := ofName_spell known (by decide) proper
  exact ⟨by decide, by decide, tuples, all, names⟩

end ItemLexicon.Expansion
