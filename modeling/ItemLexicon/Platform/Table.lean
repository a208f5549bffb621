import ItemLexicon.Json.Record
import ItemLexicon.Platform.Basic

namespace ItemLexicon

open Json

namespace MaterialInfo

def ofDocument? (d : Document) : Option MaterialInfo :=
  match d.fields? ["id", "block", "max_durability"] with
  | some [some id, block, durability] => do
    return ⟨← id.text?, ← Document.orElse? false Document.bool? block,
      ← Document.orElse? 0 (Document.natUpTo? 65535) durability⟩
  | _ => none

end MaterialInfo

namespace EnchantmentInfo

def ofDocument? (d : Document) : Option EnchantmentInfo :=
  match d.fields? ["id", "names"] with
  | some [some id, names] => do
    return ⟨← id.text?, ← Document.orElse? [] (Document.list? Document.text?) names⟩
  | _ => none

end EnchantmentInfo

namespace Platform

def build (version : Version) (legacy : Bool) (materials : List MaterialInfo)
    (enchantments : List EnchantmentInfo) : Platform :=
  enchantments.foldl addEnchantment
    (materials.foldl addMaterial { ofVersion version with legacy := legacy })

def ofDocument? (d : Document) : Option Platform :=
  match d.fields? ["version", "legacy_data_values", "materials", "enchantments"] with
  | some [some version, legacy, materials, enchantments] => do
    let version ← (Version.ofString (← version.text?)).toOption
    return build version (← Document.orElse? false Document.bool? legacy)
      (← Document.orElse? [] (Document.list? MaterialInfo.ofDocument?) materials)
      (← Document.orElse? [] (Document.list? EnchantmentInfo.ofDocument?) enchantments)
  | _ => none

def ofJson? (s : String) : Option Platform := (Document.read? s.toList).bind ofDocument?

end Platform

end ItemLexicon
