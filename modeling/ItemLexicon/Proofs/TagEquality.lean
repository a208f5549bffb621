import ItemLexicon.Item.Metadata

namespace ItemLexicon

namespace Binary64

def canonical (x : Binary64) : Binary64 := if x.isZero then zero false else x

@[simp] theorem isZero_canonical (x : Binary64) : x.canonical.isZero = x.isZero := by
  by_cases h : x.isZero
  · rw [canonical, if_pos h, h]
    rfl
  · rw [canonical, if_neg h]

theorem same_iff (x y : Binary64) : x.same y = true ↔ x.canonical = y.canonical := by
  constructor
  · intro h
    rw [same, Bool.or_eq_true, Bool.and_eq_true] at h
    rcases h with ⟨hx, hy⟩ | h
    · simp [canonical, hx, hy]
    · rw [eq_of_beq h]
  · intro h
    -- the canonical form tells whether a number is zero, so either both are or neither is
    have hxy : x.isZero = y.isZero := by rw [← isZero_canonical x, h, isZero_canonical]
    by_cases hx : x.isZero
    · simp [same, hx, ← hxy]
    · have hy : ¬y.isZero := by rwa [← hxy]
      rw [canonical, if_neg hx, canonical, if_neg hy] at h
      simp [same, h]

end Binary64

namespace Tag

mutual

def canonical : Tag → Tag
  | .null => .null
  | .bool b => .bool b
  | .int n => .int n
  | .float x => .float x.canonical
  | .text s => .text s
  | .list items => .list (canonicalItems items)
  | .compound entries => .compound (canonicalEntries entries)

def canonicalItems : List Tag → List Tag
  | [] => []
  | t :: ts => t.canonical :: canonicalItems ts

def canonicalEntries : List (String × Tag) → List (String × Tag)
  | [] => []
  | (k, t) :: es => (k, t.canonical) :: canonicalEntries es

end

mutual

theorem same_iff (s t : Tag) : s.same t = true ↔ s.canonical = t.canonical := by
  cases s with
  | list as => cases t <;> simp [same, canonical, sameItems_iff as]
  | compound as => cases t <;> simp [same, canonical, sameEntries_iff as]
  | float x => cases t <;> simp [same, canonical, Binary64.same_iff]
  | _ => cases t <;> simp [same, canonical]

theorem sameItems_iff (as bs : List Tag) :
    sameItems as bs = true ↔ canonicalItems as = canonicalItems bs := by
  cases as with
  | nil => cases bs <;> simp [sameItems, canonicalItems]
  | cons a as =>
    cases bs with
    | nil => simp [sameItems, canonicalItems]
    | cons b bs => simp [sameItems, canonicalItems, same_iff a, sameItems_iff as]

theorem sameEntries_iff (as bs : List (String × Tag)) :
    sameEntries as bs = true ↔ canonicalEntries as = canonicalEntries bs := by
  match as, bs with
  | [], [] => simp [sameEntries, canonicalEntries]
  | [], _ :: _ => simp [sameEntries, canonicalEntries]
  | _ :: _, [] => simp [sameEntries, canonicalEntries]
  | (k, a) :: as, (l, b) :: bs =>
    simp [sameEntries, canonicalEntries, same_iff a, sameEntries_iff as]

end

theorem sameOption_iff (s t : Option Tag) :
    sameOption s t = true ↔ s.map canonical = t.map canonical := by
  cases s <;> cases t <;> simp [sameOption, same_iff]

theorem get?_canonicalEntries (key : String) (es : List (String × Tag)) :
    Dictionary.get? key (canonicalEntries es) = (Dictionary.get? key es).map canonical := by
  induction es with
  | nil => rfl
  | cons e es ih =>
    rw [canonicalEntries, Dictionary.get?, Dictionary.get?, ih]
    split <;> rfl

theorem keys_canonicalEntries (es : List (String × Tag)) :
    Dictionary.keys (canonicalEntries es) = Dictionary.keys es := by
  induction es with
  | nil => rfl
  | cons e es ih => exact congrArg (e.1 :: ·) ih

theorem length_canonicalEntries (es : List (String × Tag)) :
    (canonicalEntries es).length = es.length := by
  have keys := congrArg List.length (keys_canonicalEntries es)
  rwa [Dictionary.keys, Dictionary.keys, List.length_map, List.length_map] at keys

theorem text?_canonical (t : Tag) : t.canonical.text? = t.text? := by
  cases t <;> rfl

theorem sameEntries_iff_get? {d d' : Tags} (h : d.Sorted) (h' : d'.Sorted) :
    sameEntries d d' = true ↔ ∀ key, (Dictionary.get? key d).map canonical =
      (Dictionary.get? key d').map canonical := by
  have sorted : Dictionary.Sorted (canonicalEntries d) := by
    rwa [Dictionary.Sorted, keys_canonicalEntries]
  have sorted' : Dictionary.Sorted (canonicalEntries d') := by
    rwa [Dictionary.Sorted, keys_canonicalEntries]
  rw [sameEntries_iff]
  simp only [← get?_canonicalEntries]
  constructor
  · intro same key
    rw [same]
  · exact sorted.ext sorted'

end Tag

namespace MetadataKind

def canonical : MetadataKind → MetadataKind
  | .plain => .plain
  | .potion base effects => .potion base (effects.map Tag.canonical)
  | .spawnEgg entity => .spawnEgg entity
  | .skull owner => .skull (owner.map Tag.canonical)
  | .container items => .container (Tag.canonicalItems items)

theorem same_iff (k l : MetadataKind) : k.same l = true ↔ k.canonical = l.canonical := by
  cases k <;> cases l <;>
    simp [same, canonical, Tag.sameOption_iff, Tag.sameItems_iff]

end MetadataKind

end ItemLexicon
