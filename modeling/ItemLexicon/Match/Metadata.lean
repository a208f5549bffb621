import ItemLexicon.Item.Metadata
import ItemLexicon.Match.Quality

namespace ItemLexicon.Metadata

/-- The grade of a field from whether it is equal on both sides and set on each. -/
def grade (equal ours theirs : Bool) : Quality :=
  if equal then .exact else if ours && !theirs then .sameItem else .sameMaterial

def gradeExtra (first second : Tags) (key : String) : Quality :=
  let ours := Dictionary.get? key first
  let theirs := Dictionary.get? key second
  grade (Tag.sameOption ours theirs) ours.isSome theirs.isSome

def compareFields (first second : Metadata) : Quality :=
  [grade (first.displayName == second.displayName) first.displayName.isSome
      second.displayName.isSome,
    grade (first.lore == second.lore) first.lore.isSome second.lore.isSome,
    grade (first.enchantments == second.enchantments) (!first.enchantments.isEmpty)
      (!second.enchantments.isEmpty),
    grade (first.hideFlags == second.hideFlags) (first.hideFlags != 0)
      (second.hideFlags != 0)].foldl Quality.worst
    ((Dictionary.keys first.extra ++ Dictionary.keys second.extra).foldl
      (fun q key => q.worst (gradeExtra first.extra second.extra key)) .exact)

/-- Brings the kinds into the quality of the other fields.  Spawn eggs are a kind of their own only
on legacy platforms, where one material stands for the eggs of all mobs. -/
def compareKinds (legacy : Bool) (q : Quality) (ours theirs : MetadataKind) : Quality :=
  match ours, theirs with
  | .potion .., .potion .. => if ours.same theirs then q else .sameMaterial
  | _, .potion .. => .different
  | .skull _, .skull _ => if ours.same theirs then q else .sameMaterial
  | _, .skull _ => .different
  | .container items, .container wanted =>
    if Tag.sameItems items wanted then q
    else if wanted.isEmpty then q.worst .sameItem
    else .sameMaterial
  | _, .container _ => .different
  | .spawnEgg _, .spawnEgg _ =>
    if legacy then (if ours.same theirs then q else .sameMaterial)
    else q.worst (grade (ours.same theirs) (!ours.isPlain) (!theirs.isPlain))
  | _, .spawnEgg _ =>
    if legacy then .different
    else q.worst (grade (ours.same theirs) (!ours.isPlain) (!theirs.isPlain))
  | _, .plain => q.worst (grade (ours.same theirs) (!ours.isPlain) (!theirs.isPlain))

def compare (legacy : Bool) (first second : Metadata) : Quality :=
  compareKinds legacy (compareFields first second) first.kind second.kind

end ItemLexicon.Metadata
