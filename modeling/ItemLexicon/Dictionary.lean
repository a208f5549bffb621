/-! Finite maps from text as lists of entries in strictly increasing key order, so that two maps
with the same entries are the same list. -/

namespace ItemLexicon

abbrev Dictionary (α : Type) := List (String × α)

namespace Dictionary

variable {α : Type}

def get? (key : String) : Dictionary α → Option α
  | [] => none
  | (k, v) :: d => if k = key then some v else get? key d

def contains (key : String) (d : Dictionary α) : Bool := (get? key d).isSome

def insert (key : String) (value : α) : Dictionary α → Dictionary α
  | [] => [(key, value)]
  | (k, v) :: d =>
    if k = key then (key, value) :: d
    else if key < k then (key, value) :: (k, v) :: d
    else (k, v) :: insert key value d

def erase (key : String) : Dictionary α → Dictionary α
  | [] => []
  | (k, v) :: d => if k = key then d else (k, v) :: erase key d

def ofList (entries : List (String × α)) : Dictionary α :=
  entries.foldl (fun d e => insert e.1 e.2 d) []

/-- All entries of `d`, and those of `other` in place of the ones they replace. -/
def merge (d other : Dictionary α) : Dictionary α :=
  other.foldl (fun d e => insert e.1 e.2 d) d

def keys (d : Dictionary α) : List String := d.map Prod.fst

def Sorted (d : Dictionary α) : Prop := d.keys.Pairwise (· < ·)

instance (d : Dictionary α) : Decidable d.Sorted := inferInstanceAs (Decidable (List.Pairwise _ _))

@[simp] theorem get?_nil (key : String) : get? key ([] : Dictionary α) = none := rfl

@[simp] theorem get?_cons_self (key : String) (value : α) (d : Dictionary α) :
    get? key ((key, value) :: d) = some value := by simp [get?]

@[simp] theorem get?_insert_self (key : String) (value : α) (d : Dictionary α) :
    get? key (insert key value d) = some value := by
  induction d with
  | nil => simp [insert]
  | cons e d ih =>
    obtain ⟨k, v⟩ := e
    simp only [insert]
    split
    · simp [get?]
    · split
      · simp [get?]
      · rename_i h _
        simp [get?, h, ih]

theorem get?_eq_none_iff {key : String} {d : Dictionary α} :
    get? key d = none ↔ key ∉ d.keys := by
  induction d with
  | nil => simp [keys]
  | cons e d ih =>
    obtain ⟨k, v⟩ := e
    by_cases h : k = key
    · simp [get?, keys, h]
    · have h' : key ≠ k := Ne.symm h
      simpa [get?, keys, h, h'] using ih

theorem get?_insert_of_ne {key other : String} (h : other ≠ key) (value : α)
    (d : Dictionary α) : get? other (insert key value d) = get? other d := by
  induction d with
  | nil => simp [insert, get?, Ne.symm h]
  | cons e d ih =>
    obtain ⟨k, v⟩ := e
    simp only [insert]
    split
    · rename_i hk
      subst hk
      simp [get?, Ne.symm h]
    · split
      · simp [get?, Ne.symm h]
      · simp only [get?, ih]

theorem get?_insert (key other : String) (value : α) (d : Dictionary α) :
    get? other (insert key value d) = if other = key then some value else get? other d := by
  by_cases h : other = key
  · rw [if_pos h, h, get?_insert_self]
  · rw [if_neg h, get?_insert_of_ne h]

theorem mem_of_get? {key : String} {value : α} {d : Dictionary α}
    (h : get? key d = some value) : (key, value) ∈ d := by
  induction d with
  | nil => cases h
  | cons e d ih =>
    obtain ⟨k, v⟩ := e
    rw [get?] at h
    split at h
    · rename_i hk
      cases h
      rw [hk]
      exact List.mem_cons_self
    · exact List.mem_cons_of_mem _ (ih h)

theorem mem_insert {e : String × α} {key : String} {value : α} {d : Dictionary α}
    (h : e ∈ insert key value d) : e = (key, value) ∨ e ∈ d := by
  induction d with
  | nil => exact .inl (List.mem_singleton.mp h)
  | cons e' d ih =>
    obtain ⟨k, v⟩ := e'
    rw [insert] at h
    split at h
    · exact (List.mem_cons.mp h).imp_right (List.mem_cons_of_mem _)
    · split at h
      · exact List.mem_cons.mp h
      · rcases List.mem_cons.mp h with rfl | h
        · exact .inr List.mem_cons_self
        · exact (ih h).imp_right (List.mem_cons_of_mem _)

theorem mem_of_mem_merge {e : String × α} {other d : Dictionary α} (h : e ∈ merge d other) :
    e ∈ other ∨ e ∈ d := by
  induction other generalizing d with
  | nil => exact .inr h
  | cons e' other ih =>
    rcases ih h with h | h
    · exact .inl (List.mem_cons_of_mem _ h)
    · rcases mem_insert h with rfl | h
      · exact .inl List.mem_cons_self
      · exact .inr h

theorem mem_of_mem_ofList {e : String × α} {entries : List (String × α)} (h : e ∈ ofList entries) :
    e ∈ entries :=
  (mem_of_mem_merge h).resolve_right List.not_mem_nil

theorem erase_sublist (key : String) (d : Dictionary α) :
    (erase key d).Sublist d := by
  induction d with
  | nil => exact List.Sublist.refl _
  | cons e d ih =>
    rw [erase]
    split
    · exact List.sublist_cons_self ..
    · exact ih.cons_cons _

theorem get?_erase {d : Dictionary α} (h : d.keys.Nodup) (key other : String) :
    get? other (erase key d) = if other = key then none else get? other d := by
  induction d with
  | nil => rw [erase, get?_nil, ite_self]
  | cons e d ih =>
    obtain ⟨k, v⟩ := e
    obtain ⟨new, rest⟩ := List.nodup_cons.mp h
    rw [erase]
    by_cases hk : k = key
    · subst hk
      rw [if_pos rfl]
      split
      · rename_i same
        rw [same, get?_eq_none_iff.mpr new]
      · rename_i ne
        rw [get?, if_neg (Ne.symm ne)]
    · rw [if_neg hk, get?, ih rest, get?]
      by_cases ho : k = other
      · rw [if_pos ho, if_pos ho, if_neg (ho ▸ hk)]
      · rw [if_neg ho, if_neg ho]

theorem get?_merge {other : Dictionary α} (h : other.keys.Nodup) (key : String)
    (d : Dictionary α) : get? key (merge d other) = (get? key other).or (get? key d) := by
  induction other generalizing d with
  | nil => rfl
  | cons e other ih =>
    obtain ⟨k, v⟩ := e
    obtain ⟨new, rest⟩ := List.nodup_cons.mp h
    rw [merge, List.foldl_cons, ← merge, ih rest, get?]
    split
    · rename_i hk
      subst hk
      rw [get?_eq_none_iff.mpr new, get?_insert_self]
      rfl
    · rename_i hk
      rw [get?_insert_of_ne (Ne.symm hk)]

theorem get?_filter {d : Dictionary α} (h : d.keys.Nodup) (p : String → α → Bool) (key : String) :
    get? key (d.filter fun e => p e.1 e.2) = (get? key d).filter (p key) := by
  induction d with
  | nil => rfl
  | cons e d ih =>
    obtain ⟨k, v⟩ := e
    obtain ⟨new, rest⟩ := List.nodup_cons.mp h
    rw [List.filter_cons]
    by_cases hk : k = key
    · subst hk
      rw [get?_cons_self]
      cases hp : p k v with
      | true => rw [if_pos rfl, get?_cons_self, Option.filter_some, if_pos hp]
      | false =>
        rw [if_neg Bool.false_ne_true, ih rest, get?_eq_none_iff.mpr new, Option.filter_some, hp]
        rfl
    · rw [get?, if_neg hk, ← ih rest]
      split
      · rw [get?, if_neg hk]
      · rfl

theorem sorted_nil : Sorted ([] : Dictionary α) := List.Pairwise.nil

theorem mem_keys_insert {k key : String} {value : α} {d : Dictionary α}
    (h : k ∈ keys (insert key value d)) : k = key ∨ k ∈ keys d := by
  cases known : get? k d with
  | some v =>
    right
    apply Classical.byContradiction
    intro absent
    rw [get?_eq_none_iff.mpr absent] at known
    cases known
  | none =>
    left
    apply Classical.byContradiction
    intro ne
    exact get?_eq_none_iff.mp ((get?_insert_of_ne ne value d).trans known) h

theorem Sorted.insert {d : Dictionary α} (h : d.Sorted) (key : String) (value : α) :
    (Dictionary.insert key value d).Sorted := by
  induction d with
  | nil => exact List.pairwise_singleton ..
  | cons e d ih =>
    obtain ⟨k, v⟩ := e
    obtain ⟨least, rest⟩ := List.pairwise_cons.mp h
    rw [Dictionary.insert]
    split
    · rename_i same
      subst same
      exact h
    · rename_i ne
      split
      · rename_i before
        refine List.pairwise_cons.mpr ⟨fun other hother => ?_, h⟩
        rcases List.mem_cons.mp hother with rfl | hother
        · exact before
        · exact String.lt_trans before (least other hother)
      · rename_i notBefore
        refine List.pairwise_cons.mpr ⟨fun other hother => ?_, ih rest⟩
        rcases mem_keys_insert hother with rfl | hother
        · apply Classical.byContradiction
          intro notAfter
          exact ne (String.le_antisymm (String.not_lt.mp notBefore) (String.not_lt.mp notAfter))
        · exact least other hother

theorem Sorted.merge {d : Dictionary α} (h : d.Sorted) (other : Dictionary α) :
    (Dictionary.merge d other).Sorted := by
  induction other generalizing d with
  | nil => exact h
  | cons e other ih => exact ih (h.insert e.1 e.2)

theorem sorted_ofList (entries : List (String × α)) : (ofList entries).Sorted :=
  sorted_nil.merge entries

theorem Sorted.nodup {d : Dictionary α} (h : d.Sorted) : d.keys.Nodup := by
  refine List.Pairwise.imp ?_ h
  intro a b lt eq
  subst eq
  exact String.lt_irrefl a lt

theorem Sorted.filter {d : Dictionary α} (h : d.Sorted) (p : String × α → Bool) :
    Dictionary.Sorted (d.filter p) :=
  List.Pairwise.sublist (List.filter_sublist.map _) h

theorem Sorted.erase {d : Dictionary α} (h : d.Sorted) (key : String) :
    (Dictionary.erase key d).Sorted :=
  List.Pairwise.sublist ((erase_sublist key d).map _) h

theorem Sorted.not_lt_of_get? {k l : String} {v w : α} {d' : Dictionary α}
    (h : Sorted ((l, w) :: d')) (same : get? k ((l, w) :: d') = some v) : ¬k < l := by
  intro lt
  rw [get?] at same
  split at same
  · rename_i hl
    exact String.lt_irrefl k (hl ▸ lt)
  · have member := List.mem_map_of_mem (f := Prod.fst) (mem_of_get? same)
    exact String.lt_irrefl k (String.lt_trans lt ((List.pairwise_cons.mp h).1 k member))

theorem Sorted.ext {d d' : Dictionary α} (h : d.Sorted) (h' : d'.Sorted)
    (same : ∀ key, get? key d = get? key d') : d = d' := by
  induction d generalizing d' with
  | nil =>
    cases d' with
    | nil => rfl
    | cons e d' =>
      have first := same e.1
      rw [get?_nil, get?_cons_self] at first
      cases first
  | cons e d ih =>
    obtain ⟨k, v⟩ := e
    cases d' with
    | nil =>
      have first := same k
      rw [get?_nil, get?_cons_self] at first
      cases first
    | cons e' d' =>
      obtain ⟨l, w⟩ := e'
      have hk : get? k ((l, w) :: d') = some v := (same k).symm.trans (get?_cons_self ..)
      have hl : get? l ((k, v) :: d) = some w := (same l).trans (get?_cons_self ..)
      have kl : k = l := String.le_antisymm (String.not_lt.mp (h.not_lt_of_get? hl))
        (String.not_lt.mp (h'.not_lt_of_get? hk))
      subst kl
      rw [get?_cons_self, Option.some_inj] at hk
      subst hk
      obtain ⟨new, -⟩ := List.nodup_cons.mp h.nodup
      obtain ⟨new', -⟩ := List.nodup_cons.mp h'.nodup
      have rest : d = d' := by
        refine ih (List.pairwise_cons.mp h).2 (List.pairwise_cons.mp h').2 fun key => ?_
        by_cases hkey : k = key
        · subst hkey
          rw [get?_eq_none_iff.mpr new, get?_eq_none_iff.mpr new']
        · simpa [get?, hkey] using same key
      rw [rest]

theorem Sorted.insert_of_get? {key : String} {value : α} {d : Dictionary α} (h : d.Sorted)
    (hv : get? key d = some value) : Dictionary.insert key value d = d := by
  refine (h.insert key value).ext h fun other => ?_
  rw [get?_insert]
  split
  · rename_i same
    rw [same, hv]
  · rfl

theorem Sorted.erase_insert {key other : String} {d : Dictionary α} (h : d.Sorted)
    (ne : key ≠ other) (value : α) :
    Dictionary.erase key (Dictionary.insert other value d) =
      Dictionary.insert other value (Dictionary.erase key d) := by
  refine ((h.insert other value).erase key).ext ((h.erase key).insert other value) fun k => ?_
  rw [get?_erase (h.insert other value).nodup, get?_insert, get?_insert, get?_erase h.nodup]
  by_cases hk : k = key
  · rw [if_pos hk, if_pos hk, if_neg (hk ▸ ne)]
  · rw [if_neg hk, if_neg hk]

theorem Sorted.ofList_eq {d : Dictionary α} (h : d.Sorted) : ofList d = d := by
  refine (sorted_ofList d).ext h fun key => ?_
  exact (get?_merge h.nodup key []).trans (Option.or_none ..)

end Dictionary

end ItemLexicon
