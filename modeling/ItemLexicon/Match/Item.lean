import ItemLexicon.Item.Basic
import ItemLexicon.Match.Metadata

/-! How well an item matches a pattern.  What the subject has and the pattern does not mention
leaves it the same item; what the pattern asks for and the subject lacks leaves the material at
best. -/

namespace ItemLexicon.Item

def decided? (legacy : Bool) (subject pattern : Item) : Option Quality :=
  if subject.isAnything || pattern.isAnything then some .exact
  else if subject.material != pattern.material then some .different
  else if legacy then
    if !subject.isUnflagged && subject.durability != pattern.durability then some .different
    else none
  else if subject.itemForm && pattern.block.any (!·.isDefault) then some .sameMaterial
  else none

def compareBlocks (subject pattern : Item) : Quality :=
  match subject.block, pattern.block with
  | some ours, some theirs => ours.compare theirs
  | none, none => .exact
  | _, _ => .sameMaterial

def compareBody (subject pattern : Item) : Quality :=
  if subject.durability != pattern.durability then
    if pattern.durabilityGiven then .sameMaterial else .sameItem
  else compareBlocks subject pattern

/-- Brings metadata in.  A pattern without given tags accepts any that share the material. -/
def withMetadata (pattern : Item) (q m : Quality) : Quality :=
  if m = .sameMaterial && !pattern.tagsGiven then .sameItem else q.worst m

/-- How well `subject` matches `pattern`. -/
def compare (legacy : Bool) (subject pattern : Item) : Quality :=
  match decided? legacy subject pattern with
  | some q => q
  | none =>
    let q := compareBody subject pattern
    if q.isAtLeast .sameItem then
      withMetadata pattern q (Metadata.compare legacy subject.metadata pattern.metadata)
    else q

/-- Whether two items are the same one, seen from the side of the alias. -/
def isSameItem (legacy : Bool) (a b : Item) : Bool :=
  (if a.isAlias then compare legacy b a else compare legacy a b).isAtLeast .sameItem

end ItemLexicon.Item
