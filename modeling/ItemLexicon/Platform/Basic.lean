import ItemLexicon.Dictionary
import ItemLexicon.Text.Blank
import ItemLexicon.Text.Lowercase
import ItemLexicon.Version

namespace ItemLexicon

def namespaced (id : String) : String :=
  if id.toList.contains ':' then id else "minecraft:" ++ id

theorem namespaced_namespaced (id : String) : namespaced (namespaced id) = namespaced id := by
  by_cases h : id.toList.contains ':'
  · have kept : namespaced id = id := by rw [namespaced, if_pos h]
    rw [kept, kept]
  · have qualified : namespaced id = "minecraft:" ++ id := by rw [namespaced, if_neg h]
    rw [qualified, namespaced, if_pos]
    simp [String.toList_append]

def keyOf (id : String) : String :=
  match Text.cut ':' id.toList with
  | some (_, key) => String.ofList key
  | none => id

structure MaterialInfo where
  id : String
  isBlock : Bool
  maxDurability : Nat
  deriving DecidableEq

namespace MaterialInfo

def key (m : MaterialInfo) : String := keyOf m.id

end MaterialInfo

structure EnchantmentInfo where
  id : String
  names : List String
  deriving DecidableEq

structure Enchantment where
  id : String
  level : Option Nat
  deriving DecidableEq

namespace Enchantment

def effectiveLevel (e : Enchantment) : Nat := e.level.getD 1

end Enchantment

structure Platform where
  version : Version
  legacy : Bool
  materials : List MaterialInfo
  enchantments : List EnchantmentInfo
  deriving DecidableEq

namespace Platform

def ofVersion (version : Version) : Platform := ⟨version, false, [], []⟩

def addMaterial (p : Platform) (m : MaterialInfo) : Platform :=
  let m := { m with id := namespaced m.id }
  if p.materials.any (·.id == m.id) then p else { p with materials := p.materials ++ [m] }

def addEnchantment (p : Platform) (e : EnchantmentInfo) : Platform :=
  { p with enchantments := p.enchantments ++ [{ e with id := namespaced e.id }] }

def material? (p : Platform) (id : String) : Option Nat :=
  p.materials.findIdx? (·.id == namespaced (Text.lowercase id))

def info? (p : Platform) (material : Nat) : Option MaterialInfo := p.materials[material]?

def isBlock (p : Platform) (material : Nat) : Bool := (p.info? material).any (·.isBlock)

def replaceChar (old new : Char) (s : String) : String :=
  String.ofList (s.toList.map fun c => if c = old then new else c)

def namesOf (e : EnchantmentInfo) : List (String × String) :=
  (e.id, e.id) :: (replaceChar '_' ' ' (keyOf e.id), e.id)
    :: e.names.map fun n => (Text.lowercase n, e.id)

/-- The enchantment of each name; the last one to claim a name has it. -/
def enchantmentNames (p : Platform) : Dictionary String :=
  Dictionary.ofList (p.enchantments.flatMap namesOf)

def enchantment? (p : Platform) (name : String) : Option String :=
  let name := String.ofList (Text.lower (Text.trim name.toList))
  let names := p.enchantmentNames
  (Dictionary.get? name names).or (Dictionary.get? (namespaced (replaceChar ' ' '_' name)) names)

end Platform

end ItemLexicon
