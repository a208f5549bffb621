import ItemLexicon.Resolution.Context

namespace ItemLexicon.Context

def keyName (c : Context) (i : Item) : String :=
  match i.material with
  | none => "*"
  | some m => ((c.platform.info? m).map fun info =>
      Platform.replaceChar '_' ' ' info.key).getD ""

def nameOf (c : Context) (i : Item) (plural : Bool) : String :=
  ((c.registry.nameOf? i).map (·.form plural)).getD (c.keyName i)

def genderOf (c : Context) (i : Item) : Gender :=
  ((c.registry.nameOf? i).map AliasName.gender).getD .unspecified

def idOf? (c : Context) (i : Item) : Option String := c.registry.idOf? i

def relatedEntityOf? (c : Context) (i : Item) : Option String := c.registry.relatedEntityOf? i

def rawName? (c : Context) (i : Item) : Option String :=
  i.material.bind fun m => (c.idOf? i).or ((c.platform.info? m).map MaterialInfo.id)

def rawNames (c : Context) (s : Selector) : List String := s.types.filterMap c.rawName?

def enumerate (conjunction : String) : List String → String
  | [] => ""
  | [name] => name
  | [first, last] => first ++ " " ++ conjunction ++ " " ++ last
  | first :: names => first ++ ", " ++ enumerate conjunction names

def withArticle (c : Context) (i : Item) (name : String) : String :=
  match (c.genderOf i).article name.toList with
  | some article => article ++ " " ++ name
  | none => name

def describeItem (c : Context) (s : Selector) (i : Item) : String :=
  let name := c.nameOf i (s.amount > 1 || (s.all && s.amount ≥ 0))
  if s.all || s.amount > 1 then name else c.withArticle i name

def describe (c : Context) (s : Selector) : String :=
  let names := enumerate (if s.all then "and" else "or") (s.types.map (c.describeItem s))
  if s.all then
    if s.amount ≥ 0 then toString s.amount ++ " of every " ++ names else "every " ++ names
  else if s.amount > 1 then toString s.amount ++ " " ++ names
  else names

end ItemLexicon.Context
