import ItemLexicon.Loading.FileTree
import ItemLexicon.Proofs.Words
import Mathlib.Data.List.Basic

namespace ItemLexicon

namespace Text

theorem splitOn_ne_nil (sep : Char) (s : List Char) : splitOn sep s ≠ [] := by
  cases s with
  | nil => simp [splitOn, splitWhere]
  | cons c s =>
    simp only [splitOn, splitWhere]
    split
    · simp
    · split <;> simp

theorem splitOn_of_notMem {sep : Char} {s : List Char} (h : sep ∉ s) : splitOn sep s = [s] := by
  induction s with
  | nil => rfl
  | cons c s ih =>
    rw [List.mem_cons, not_or] at h
    rw [splitOn] at ih ⊢
    rw [splitWhere, ih h.2]
    simp [Ne.symm h.1]

theorem splitOn_append_cons (sep : Char) (s t : List Char) :
    splitOn sep (s ++ sep :: t) = splitOn sep s ++ splitOn sep t := by
  induction s with
  | nil => simp [splitOn, splitWhere]
  | cons c s ih =>
    have ne := splitOn_ne_nil sep s
    simp only [splitOn, List.cons_append, splitWhere] at ih ne ⊢
    rw [ih]
    split
    · rfl
    · cases hs : splitWhere (· == sep) s with
      | nil => exact absurd hs ne
      | cons p ps => rfl

theorem notMem_of_mem_splitOn {sep : Char} {s p : List Char} (h : p ∈ splitOn sep s) :
    sep ∉ p := by
  obtain ⟨ps, q, split, parts⟩ := exists_splitWhere_append (· == sep) s
  have whole := split [] (List.forall_mem_nil _)
  rw [List.append_nil, List.append_nil] at whole
  rw [splitOn, whole] at h
  intro inside
  simpa using (parts p h sep inside).1

end Text

namespace FileTree

structure IsName (name : String) : Prop where
  ne_empty : name ≠ ""
  solid : '/' ∉ name.toList

/-- The entries of every directory are in the order of their names. -/
inductive IsProper : FileTree → Prop
  | file (content : List UInt8) : IsProper (.file content)
  | directory (es : List (String × FileTree)) (sorted : Dictionary.Sorted es)
    (names : ∀ e ∈ es, IsName e.1) (trees : ∀ e ∈ es, IsProper e.2) : IsProper (.directory es)

theorem isProper_empty : IsProper (directory []) :=
  .directory [] Dictionary.sorted_nil nofun nofun

theorem IsProper.put {content : Option (List UInt8)} {cs : List String} (names : ∀ c ∈ cs, IsName c)
    {t : FileTree} (h : t.IsProper) : (put content cs t).IsProper := by
  induction cs generalizing t with
  | nil =>
    cases content with
    | some bytes => exact .file bytes
    | none =>
      cases h with
      | file => exact isProper_empty
      | directory es sorted names trees => exact .directory es sorted names trees
  | cons c cs ih =>
    obtain ⟨hc, rest⟩ := List.forall_mem_cons.mp names
    have step : ∀ es, IsProper (.directory es) → IsProper (.directory (Dictionary.insert c
        (FileTree.put content cs ((Dictionary.get? c es).getD (.directory []))) es)) := by
      rintro es ⟨⟩
      rename_i sorted names trees
      have child : ((Dictionary.get? c es).getD (.directory [])).IsProper := by
        cases found : Dictionary.get? c es with
        | none => exact isProper_empty
        | some t => exact trees _ (Dictionary.mem_of_get? found)
      refine .directory _ (sorted.insert _ _) (fun e he => ?_) fun e he => ?_
      · rcases Dictionary.mem_insert he with rfl | he
        · exact hc
        · exact names e he
      · rcases Dictionary.mem_insert he with rfl | he
        · exact ih rest child
        · exact trees e he
    cases h with
    | file => exact step [] isProper_empty
    | directory es sorted names trees => exact step es (.directory es sorted names trees)

theorem IsProper.write {t : FileTree} (h : t.IsProper) (path : String)
    (content : Option (List UInt8)) : (t.write path content).IsProper := by
  refine h.put fun c hc => ?_
  obtain ⟨hc, shown⟩ := List.mem_filter.mp hc
  obtain ⟨p, hp, rfl⟩ := List.mem_map.mp hc
  simp only [ne_eq, decide_eq_true_eq] at shown
  exact ⟨shown.1, by simpa using Text.notMem_of_mem_splitOn hp⟩

theorem IsProper.follow? {trail : List FileTree} (h : ∀ t ∈ trail, t.IsProper) {cs : List String}
    {t : FileTree} (found : follow? trail cs = some t) : t.IsProper := by
  induction cs generalizing trail with
  | nil =>
    cases trail with
    | nil => cases found
    | cons u trail =>
      cases found
      exact h t List.mem_cons_self
  | cons c cs ih =>
    cases trail with
    | nil => cases found
    | cons u trail =>
      obtain ⟨hu, rest⟩ := List.forall_mem_cons.mp h
      cases hu with
      | file => cases found
      | directory es sorted names trees =>
        rw [FileTree.follow?] at found
        split at found
        · exact ih h found
        · split at found
          · exact ih rest found
          · obtain ⟨v, hv, found⟩ := Option.bind_eq_some_iff.mp found
            have child := trees _ (Dictionary.mem_of_get? hv)
            exact ih (List.forall_mem_cons.mpr ⟨child, h⟩) found

theorem IsProper.at? {root t : FileTree} (h : root.IsProper) {path : String}
    (found : root.at? path = some t) : t.IsProper := by
  rw [FileTree.at?] at found
  split at found
  · cases found
  · split at found
    · cases found
      exact h
    · exact IsProper.follow? (by simpa using h) found

def slash (path : List Char) : List Char :=
  match path.getLast? with
  | none | some '/' => []
  | some _ => ['/']

/-- What the paths of the entries of a directory begin with. -/
def lead (path : String) : List Char := path.toList ++ slash path.toList

theorem slash_append {s : List Char} (ne : s ≠ []) (path : List Char) :
    slash (path ++ s) = slash s := by
  rw [slash, slash, List.getLast?_append_of_ne_nil _ ne]

theorem slash_append_slash (path : List Char) : slash (path ++ slash path) = [] := by
  rw [slash]
  cases last : path.getLast? with
  | none => simp [slash, List.getLast?_eq_none_iff.mp last]
  | some c =>
    by_cases hc : c = '/'
    · simp [slash, last, hc]
    · simp [slash, last]

theorem lead_eq (path : String) : lead path = [] ∨ ∃ s, lead path = s ++ ['/'] := by
  have done := slash_append_slash path.toList
  rw [← lead, slash] at done
  cases last : (lead path).getLast? with
  | none => exact .inl (List.getLast?_eq_none_iff.mp last)
  | some c =>
    by_cases hc : c = '/'
    · exact .inr (List.getLast?_eq_some_iff.mp (hc ▸ last))
    · simp [last] at done

@[simp] theorem lead_empty : lead "" = [] := rfl

theorem IsName.lead_eq {name : String} (h : IsName name) : lead name = name.toList ++ ['/'] := by
  cases last : name.toList.getLast? with
  | none => exact absurd (String.ext (List.getLast?_eq_none_iff.mp last)) h.ne_empty
  | some c =>
    have hc : c ≠ '/' := fun eq => h.solid (eq ▸ List.mem_of_getLast? last)
    simp [lead, slash, last]

@[simp] theorem toList_join (path name : String) :
    (join path name).toList = lead path ++ name.toList := by
  rw [join, lead, slash]
  split <;> simp [*]

@[simp] theorem lead_join (path name : String) :
    lead (join path name) = lead path ++ lead name := by
  rw [lead, toList_join]
  by_cases h : name.toList = []
  · rw [h, List.append_nil, lead, slash_append_slash]
    simp [lead, slash, h]
  · rw [slash_append h, List.append_assoc, ← lead]

theorem join_join (path p q : String) : join (join path p) q = join path (join p q) :=
  String.ext (by simp)

@[simp] theorem join_empty (name : String) : join "" name = name := String.ext (by simp)

def above (path : String) : List (List Char) := (Text.splitOn '/' (lead path)).dropLast

theorem splitOn_lead_append (path : String) (s : List Char) :
    Text.splitOn '/' (lead path ++ s) = above path ++ Text.splitOn '/' s := by
  rw [above]
  rcases lead_eq path with h | ⟨t, h⟩
  · simp [h, Text.splitOn, Text.splitWhere]
  · rw [h, List.append_assoc, List.singleton_append, Text.splitOn_append_cons,
      Text.splitOn_append_cons]
    simp [Text.splitOn, Text.splitWhere]

theorem splitOn_join (path : String) {name : String} (h : IsName name) :
    Text.splitOn '/' (join path name).toList = above path ++ [name.toList] := by
  rw [toList_join, splitOn_lead_append, Text.splitOn_of_notMem h.solid]

theorem above_join (path : String) {name : String} (h : IsName name) :
    above (join path name) = above path ++ [name.toList] := by
  rw [above, lead_join, splitOn_lead_append, h.lead_eq, Text.splitOn_append_cons,
    Text.splitOn_of_notMem h.solid]
  simp [Text.splitOn, Text.splitWhere]

def fileName (path : String) : String := (components path).getLastD ""

theorem fileName_join (path : String) {name : String} (h : IsName name) :
    fileName (join path name) = name := by
  rw [fileName, components, splitOn_join path h]
  simp

theorem extension?_eq_some_iff {name ext : String} : extension? name = some ext ↔
    ∃ s, s ≠ [] ∧ name.toList = s ++ '.' :: ext.toList ∧ '.' ∉ ext.toList := by
  rw [extension?]
  cases found : Text.cutLast '.' name.toList with
  | none =>
    refine iff_of_false nofun ?_
    rintro ⟨s, -, eq, -⟩
    have absent := Text.cutLast_eq_none_iff.mp found
    simp [eq] at absent
  | some p =>
    obtain ⟨before, after⟩ := p
    obtain ⟨eq, solid⟩ := Text.cutLast_eq_some_iff.mp found
    constructor
    · intro h
      cases before with
      | nil => cases h
      | cons c s =>
        cases h
        exact ⟨c :: s, List.cons_ne_nil _ _, by simpa using eq, by simpa using solid⟩
    · rintro ⟨s, ne, eq', solid'⟩
      rw [eq', Text.cutLast_append_cons solid'] at found
      cases found
      simp [ne]

end FileTree

end ItemLexicon
