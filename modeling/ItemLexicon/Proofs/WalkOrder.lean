import ItemLexicon.Proofs.FilePaths
import ItemLexicon.Proofs.SourceNames

namespace ItemLexicon

namespace FileTree

mutual

def filesAt (path : String) : FileTree → List Source
  | file content => [⟨path, text (file content)⟩]
  | directory es => filesOf path es

def filesOf (path : String) : List (String × FileTree) → List Source
  | [] => []
  | (name, t) :: es => filesAt (join path name) t ++ filesOf path es

end

theorem filesOf_eq_flatMap (path : String) (es : List (String × FileTree)) :
    filesOf path es = es.flatMap fun e => filesAt (join path e.1) e.2 := by
  induction es with
  | nil => rfl
  | cons e es ih => rw [filesOf, ih, List.flatMap_cons]

theorem sourcesOf_eq_flatMap (path : String) (es : List (String × FileTree)) :
    sourcesOf path es = es.flatMap fun e => sourcesAt (join path e.1) e.1 e.2 := by
  induction es with
  | nil => rfl
  | cons e es ih => rw [sourcesOf, ih, List.flatMap_cons]

mutual

theorem sourcesAt_sublist (path name : String) :
    ∀ t, (sourcesAt path name t).Sublist (filesAt path t)
  | file content => by
    rw [sourcesAt, filesAt]
    split
    · exact List.Sublist.refl _
    · exact List.nil_sublist _
  | directory es => by
    rw [sourcesAt, filesAt]
    split
    · exact List.nil_sublist _
    · exact sourcesOf_sublist path es

theorem sourcesOf_sublist (path : String) :
    ∀ es, (sourcesOf path es).Sublist (filesOf path es)
  | [] => List.Sublist.refl _
  | (name, t) :: es => by
    rw [sourcesOf, filesOf]
    exact (sourcesAt_sublist (join path name) name t).append (sourcesOf_sublist path es)

end

mutual

theorem sourcesAt_join (path p name : String) : ∀ t,
    sourcesAt (join path p) name t = (sourcesAt p name t).map (·.renamed (join path))
  | file content => by
    rw [sourcesAt, sourcesAt]
    split <;> rfl
  | directory es => by
    rw [sourcesAt, sourcesAt]
    split
    · rfl
    · exact sourcesOf_join path p es

theorem sourcesOf_join (path p : String) : ∀ es,
    sourcesOf (join path p) es = (sourcesOf p es).map (·.renamed (join path))
  | [] => rfl
  | (name, t) :: es => by
    rw [sourcesOf, sourcesOf, List.map_append, join_join, sourcesAt_join path (join p name) name t,
      sourcesOf_join path p es]

end

theorem sourcesOf_eq_map (path : String) (es : List (String × FileTree)) :
    sourcesOf path es = (sourcesOf "" es).map (·.renamed (join path)) := by
  rw [← sourcesOf_join, sourcesOf_eq_flatMap, sourcesOf_eq_flatMap]
  simp only [join_join, join_empty]

theorem IsProper.exists_append {t : FileTree} (h : t.IsProper) (path : String) {name : String}
    (hn : IsName name) {s : Source} (hs : s ∈ filesAt (join path name) t) :
    ∃ u, s.name.toList = lead path ++ (name.toList ++ u) ∧ (u = [] ∨ ∃ v, u = '/' :: v) := by
  induction h generalizing path name with
  | file content =>
    rw [filesAt, List.mem_singleton] at hs
    exact ⟨[], by simp [hs], .inl rfl⟩
  | directory es sorted names trees ih =>
    rw [filesAt, filesOf_eq_flatMap] at hs
    obtain ⟨e, he, hs⟩ := List.mem_flatMap.mp hs
    obtain ⟨u, eq, -⟩ := ih e he (join path name) (names e he) hs
    refine ⟨'/' :: (e.1.toList ++ u), ?_, .inr ⟨_, rfl⟩⟩
    rw [eq, lead_join, hn.lead_eq]
    simp

/-- The place of a character in the order of the walk: there the slash, which ends the name of a
directory, comes first. -/
def rank (c : Char) : Nat := if c = '/' then 0 else c.toNat + 1

def Before (p q : String) : Prop := p.toList.map rank < q.toList.map rank

theorem rank_inj {c d : Char} : rank c = rank d ↔ c = d := by
  refine ⟨fun eq => ?_, congrArg rank⟩
  rw [rank, rank] at eq
  split at eq <;> split at eq
  · simp_all
  · cases eq
  · cases eq
  · exact Char.toNat_inj.mp (Nat.succ.inj eq)

theorem rank_lt_rank_iff {c d : Char} : rank c < rank d ↔ d ≠ '/' ∧ (c = '/' ∨ c < d) := by
  rw [rank, rank]
  by_cases hd : d = '/'
  · simp [hd]
  · by_cases hc : c = '/'
    · simp [hc, hd]
    · rw [if_neg hc, if_neg hd, Nat.add_lt_add_iff_right]
      simp only [hd, hc, ne_eq, not_false_eq_true, true_and, false_or]
      exact Iff.rfl

theorem map_rank_lt {n m u : List Char} (h : n < m) (hm : '/' ∉ m)
    (hu : u = [] ∨ ∃ v, u = '/' :: v) (v : List Char) :
    (n ++ u).map rank < (m ++ v).map rank := by
  induction n generalizing m with
  | nil =>
    cases m with
    | nil => cases h
    | cons d m =>
      have hd : d ≠ '/' := fun eq => hm (eq ▸ List.mem_cons_self)
      rcases hu with rfl | ⟨w, rfl⟩
      · exact List.nil_lt_cons _ _
      · exact List.cons_lt_cons_iff.mpr (.inl (rank_lt_rank_iff.mpr ⟨hd, .inl rfl⟩))
  | cons c n ih =>
    cases m with
    | nil => cases h
    | cons d m =>
      rw [List.mem_cons, not_or] at hm
      refine List.cons_lt_cons_iff.mpr ?_
      rcases List.cons_lt_cons_iff.mp h with first | ⟨rfl, rest⟩
      · exact .inl (rank_lt_rank_iff.mpr ⟨Ne.symm hm.1, .inr first⟩)
      · exact .inr ⟨rfl, ih rest hm.2⟩

theorem IsProper.pairwise_filesAt {t : FileTree} (h : t.IsProper) (path : String) :
    (filesAt path t).Pairwise fun s t => Before s.name t.name := by
  induction h generalizing path with
  | file content => exact List.pairwise_singleton _ _
  | directory es sorted names trees ih =>
    rw [filesAt, filesOf_eq_flatMap, List.pairwise_flatMap]
    refine ⟨fun e he => ih e he _, ?_⟩
    refine (List.pairwise_map.mp sorted).imp_of_mem fun {d e} hd he lt s hs t ht => ?_
    obtain ⟨u, hu, ends⟩ := (trees d hd).exists_append path (names d hd) hs
    obtain ⟨v, hv, -⟩ := (trees e he).exists_append path (names e he) ht
    have apart := map_rank_lt (String.lt_iff.mp lt) (names e he).solid ends v
    rw [Before, hu, hv]
    simp only [List.map_append] at apart ⊢
    exact List.append_left_lt apart

/-- The walk takes `p` before `q`, but not the order of whole paths: `p` lies below a directory
whose path goes on in `q` with a character in front of the slash. -/
def Overtakes (q p : String) : Prop :=
  ∃ s u c v, p.toList = s ++ '/' :: u ∧ q.toList = s ++ c :: v ∧ c < '/'

theorem Overtakes.lt {p q : String} (h : Overtakes q p) : q < p := by
  obtain ⟨s, u, c, v, hp, hq, hc⟩ := h
  rw [String.lt_iff, hp, hq]
  exact List.append_left_lt (List.cons_lt_cons_iff.mpr (.inl hc))

theorem Overtakes.before {p q : String} (h : Overtakes q p) : Before p q := by
  obtain ⟨s, u, c, v, hp, hq, hc⟩ := h
  have ne : c ≠ '/' := fun eq => Char.lt_irrefl '/' (eq ▸ hc)
  rw [Before, hp, hq, List.map_append, List.map_append]
  exact List.append_left_lt
    (List.cons_lt_cons_iff.mpr (.inl (rank_lt_rank_iff.mpr ⟨ne, .inl rfl⟩)))

theorem lt_or_split_of_map_rank_lt {s t : List Char} (h : s.map rank < t.map rank) :
    s < t ∨ ∃ w u c v, s = w ++ '/' :: u ∧ t = w ++ c :: v ∧ c < '/' := by
  induction s generalizing t with
  | nil =>
    cases t with
    | nil => cases h
    | cons d t => exact .inl (List.nil_lt_cons _ _)
  | cons c s ih =>
    cases t with
    | nil => cases h
    | cons d t =>
      rcases List.cons_lt_cons_iff.mp h with first | ⟨eq, rest⟩
      · obtain ⟨hd, rfl | lt⟩ := rank_lt_rank_iff.mp first
        · rcases Nat.lt_or_gt_of_ne fun eq => hd (Char.toNat_inj.mp eq) with lt | lt
          · exact .inr ⟨[], s, d, t, rfl, rfl, lt⟩
          · exact .inl (List.cons_lt_cons_iff.mpr (.inl lt))
        · exact .inl (List.cons_lt_cons_iff.mpr (.inl lt))
      · obtain rfl := rank_inj.mp eq
        rcases ih rest with lt | ⟨w, u, b, v, rfl, rfl, hb⟩
        · exact .inl (List.cons_lt_cons_iff.mpr (.inr ⟨rfl, lt⟩))
        · exact .inr ⟨c :: w, u, b, v, rfl, rfl, hb⟩

theorem Before.lt_or_overtakes {p q : String} (h : Before p q) : p < q ∨ Overtakes q p := by
  rw [String.lt_iff]
  exact lt_or_split_of_map_rank_lt h

theorem Before.ne {p q : String} (h : Before p q) : p ≠ q := by
  rintro rfl
  exact List.lt_irrefl _ h

theorem Before.asymm {p q : String} (h : Before p q) : ¬Before q p := List.lt_asymm h

theorem sublist_of_before {ss : List Source} (h : ss.Pairwise fun s t => Before s.name t.name)
    {s t : Source} (hs : s ∈ ss) (ht : t ∈ ss) (before : Before s.name t.name) :
    [s, t].Sublist ss := by
  induction ss with
  | nil => cases hs
  | cons a ss ih =>
    obtain ⟨first, rest⟩ := List.pairwise_cons.mp h
    rcases List.mem_cons.mp hs with rfl | inS
    · rcases List.mem_cons.mp ht with rfl | inT
      · exact absurd rfl before.ne
      · exact (List.singleton_sublist.mpr inT).cons_cons _
    · rcases List.mem_cons.mp ht with rfl | inT
      · exact absurd (first s inS) before.asymm
      · exact (ih rest inS inT).cons _

theorem pairwise_le_iff {ss : List Source} (h : ss.Pairwise fun s t => Before s.name t.name) :
    (ss.Pairwise fun s t => s.name ≤ t.name) ↔
      ∀ s ∈ ss, ∀ t ∈ ss, ¬Overtakes t.name s.name := by
  constructor
  · intro ordered s hs t ht passes
    have pair := ordered.sublist (sublist_of_before h hs ht passes.before)
    have le := (List.pairwise_cons.mp pair).1 t (List.mem_singleton_self t)
    exact String.not_le.mpr passes.lt le
  · intro none
    refine h.imp_of_mem fun {s t} hs ht before => ?_
    rcases before.lt_or_overtakes with lt | passes
    · exact String.not_lt.mp (String.lt_asymm lt)
    · exact absurd passes (none s hs t ht)

def IsShown (path : String) : Prop := ∀ c ∈ above path, Source.isHidden (String.ofList c) = false

theorem isShown_empty : IsShown "" := nofun

theorem isShown_join_iff (path : String) {name : String} (h : IsName name) :
    IsShown (join path name) ↔ IsShown path ∧ Source.isHidden name = false := by
  simp [IsShown, above_join path h, or_imp, forall_and]

theorem suffix_join_iff (path : String) {name : String} (shown : Source.isHidden name = false) :
    ".sk".toList <:+ (join path name).toList ↔ extension? name = some "sk" := by
  rw [extension?_eq_some_iff, toList_join]
  constructor
  · rintro ⟨s, eq⟩
    have ne : ".sk".toList ≠ name.toList := by
      intro whole
      simp [Source.isHidden, ← whole] at shown
    rcases List.append_eq_append_iff.mp eq with ⟨t, above, whole⟩ | ⟨t, -, whole⟩
    · rcases lead_eq path with none | ⟨u, last⟩
      · rw [none] at above
        obtain ⟨-, rfl⟩ := List.append_eq_nil_iff.mp above.symm
        exact absurd whole ne
      · rcases List.eq_nil_or_concat t with rfl | ⟨v, c, rfl⟩
        · exact absurd whole ne
        · rw [last, List.concat_eq_append, ← List.append_assoc] at above
          obtain ⟨-, slash⟩ := List.append_inj' above rfl
          have inside : c ∈ ".sk".toList := by simp [whole]
          rw [← List.singleton_inj.mp slash] at inside
          exact absurd inside (by decide)
    · refine ⟨t, ?_, whole, by decide⟩
      rintro rfl
      exact ne whole.symm
  · rintro ⟨s, -, eq, -⟩
    exact ⟨lead path ++ s, by simp [eq]⟩

theorem isListed_join_iff (path : String) {name : String} (h : IsName name) :
    Source.isListed (join path name) = true ↔
      IsShown path ∧ Source.isHidden name = false ∧ extension? name = some "sk" := by
  rw [Source.isListed, splitOn_join path h, Bool.and_eq_true, List.isSuffixOf_iff_suffix]
  have parts : (!(above path ++ [name.toList]).any fun s => Source.isHidden (String.ofList s)) =
      true ↔ IsShown path ∧ Source.isHidden name = false := by
    simp [IsShown]
  rw [parts, and_comm, and_assoc]
  refine and_congr_right fun _ => and_congr_right fun shown => suffix_join_iff path shown

theorem isListed_of_isHidden {s : Source} {path name : String} (h : IsName name)
    (hidden : Source.isHidden name = true) {u : List Char}
    (hs : s.name.toList = lead path ++ (name.toList ++ u)) (hu : u = [] ∨ ∃ v, u = '/' :: v) :
    Source.isListed s.name = false := by
  have member : name.toList ∈ Text.splitOn '/' s.name.toList := by
    rw [hs, splitOn_lead_append]
    rcases hu with rfl | ⟨v, rfl⟩
    · simp [Text.splitOn_of_notMem h.solid]
    · simp [Text.splitOn_append_cons, Text.splitOn_of_notMem h.solid]
  have any : (Text.splitOn '/' s.name.toList).any (fun s => Source.isHidden (String.ofList s)) :=
    List.any_eq_true.mpr ⟨_, member, by simpa using hidden⟩
  simp [Source.isListed, any]

theorem IsProper.filter_filesAt {t : FileTree} (h : t.IsProper) (path : String) {name : String}
    (hn : IsName name) : (filesAt (join path name) t).filter (fun s => Source.isListed s.name) =
      (sourcesAt (join path name) name t).filter fun s => Source.isListed s.name := by
  induction h generalizing path name with
  | file content =>
    rw [filesAt, sourcesAt]
    split
    · rfl
    · rename_i other
      have unlisted : Source.isListed (join path name) = false := by
        rw [← Bool.not_eq_true, isListed_join_iff path hn]
        exact fun listed => other listed.2.2
      simp [unlisted]
  | directory es sorted names trees ih =>
    rw [sourcesAt]
    split
    · rename_i hidden
      refine List.filter_eq_nil_iff.mpr fun s hs => ?_
      obtain ⟨u, eq, ends⟩ := (IsProper.directory es sorted names trees).exists_append path hn hs
      simp [isListed_of_isHidden hn hidden eq ends]
    · rw [filesAt, filesOf_eq_flatMap, sourcesOf_eq_flatMap, List.filter_flatMap,
        List.filter_flatMap]
      exact List.flatMap_congr fun e he => ih e he _ (names e he)

theorem IsProper.exists_join {t : FileTree} (h : t.IsProper) {path name : String} (hn : IsName name)
    (shown : IsShown path) {s : Source} (hs : s ∈ sourcesAt (join path name) name t) :
    ∃ p n, s.name = join p n ∧ IsName n ∧ IsShown p ∧ extension? n = some "sk" := by
  induction h generalizing path name with
  | file content =>
    rw [sourcesAt] at hs
    split at hs
    · rename_i ext
      exact ⟨path, name, by rw [List.mem_singleton.mp hs], hn, shown, ext⟩
    · cases hs
  | directory es sorted names trees ih =>
    rw [sourcesAt] at hs
    split at hs
    · cases hs
    · rename_i visible
      rw [sourcesOf_eq_flatMap] at hs
      obtain ⟨e, he, hs⟩ := List.mem_flatMap.mp hs
      have below := (isShown_join_iff path hn).mpr ⟨shown, Bool.eq_false_iff.mpr visible⟩
      exact ih e he (names e he) below hs

section Directory

variable {es : List (String × FileTree)} (h : (FileTree.directory es).IsProper)

def endsHidden (path : String) : Bool := Source.isHidden (fileName path)

include h

theorem IsProper.isListed_eq {s : Source} (hs : s ∈ sourcesOf "" es) :
    Source.isListed s.name = !endsHidden s.name := by
  cases h with
  | directory _ sorted names trees =>
    rw [sourcesOf_eq_flatMap] at hs
    obtain ⟨e, he, hs⟩ := List.mem_flatMap.mp hs
    obtain ⟨p, n, eq, hn, shown, ext⟩ := (trees e he).exists_join (names e he) isShown_empty hs
    rw [endsHidden, eq, fileName_join p hn, Bool.eq_iff_iff, isListed_join_iff p hn]
    simp [shown, ext]

theorem IsProper.filter_filesOf :
    (filesOf "" es).filter (fun s => Source.isListed s.name) =
      (sourcesOf "" es).filter fun s => !endsHidden s.name := by
  have listed : (sourcesOf "" es).filter (fun s => !endsHidden s.name) =
      (sourcesOf "" es).filter fun s => Source.isListed s.name :=
    List.filter_congr fun s hs => (h.isListed_eq hs).symm
  rw [listed]
  cases h with
  | directory _ sorted names trees =>
    rw [filesOf_eq_flatMap, sourcesOf_eq_flatMap, List.filter_flatMap, List.filter_flatMap]
    exact List.flatMap_congr fun e he => (trees e he).filter_filesAt _ (names e he)

theorem IsProper.pairwise_sourcesOf :
    (sourcesOf "" es).Pairwise fun s t => Before s.name t.name :=
  (h.pairwise_filesAt "").sublist (sourcesOf_sublist "" es)

end Directory

end FileTree

end ItemLexicon
