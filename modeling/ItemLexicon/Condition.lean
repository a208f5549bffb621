import ItemLexicon.Dictionary
import ItemLexicon.Version

/-! Conditions that gate sections of alias text.  An entry whose key is a registered keyword is not
an alias: its value is checked, and a failed check ends its section. -/

namespace ItemLexicon

abbrev Conditions := Dictionary (String → Bool)

namespace Conditions

def versionKeyword : String := "minecraft version"

def register (keyword : String) (condition : String → Bool) (cs : Conditions) : Conditions :=
  Dictionary.insert keyword condition cs

/-- A specification that cannot be read is not met. -/
def meetsVersion (current : Version) (spec : String) : Bool :=
  match current.meets spec.toList with
  | .ok met => met
  | .error _ => false

def ofVersion (current : Version) : Conditions := register versionKeyword (meetsVersion current) []

def check (cs : Conditions) (keyword value : String) : Option Bool :=
  (Dictionary.get? keyword cs).map fun condition => condition value

end Conditions

end ItemLexicon
