import ItemLexicon.Condition
import ItemLexicon.Definition.Expander
import ItemLexicon.Definition.Expansion
import ItemLexicon.Definition.Outline
import ItemLexicon.Loading.Diagnostic
import ItemLexicon.Registry.Basic

namespace ItemLexicon

structure Loader where
  registry : Registry
  conditions : Conditions
  expander : Pattern.Expander
  diagnostics : List Diagnostic

structure Place where
  source : Option String
  line : Nat
  deriving DecidableEq

namespace Loader

def start (r : Registry) (cs : Conditions) : Loader := ⟨r, cs, .new, []⟩

def report (l : Loader) (p : Place) (fault : Fault) : Loader :=
  let line := if p.line = 0 then none else some p.line
  { l with diagnostics := l.diagnostics ++ [⟨p.source, line, fault⟩] }

def reportAll (l : Loader) (p : Place) (faults : List Fault) : Loader :=
  faults.foldl (·.report p) l

def expand (l : Loader) (pattern : String) : Pattern.Expansion × Loader :=
  let (expansion, x) := l.expander.expand pattern.toList
  (expansion, { l with expander := x })

def definitions : List (List Char) → List Variation × List Fault
  | [] => ([], [])
  | s :: ss =>
    let (vs, faults) := definitions ss
    match Variation.read s with
    | .ok v => (v :: vs, faults)
    | .error fault => (vs, fault :: faults)

/-- The forms and the gender of an expanded name; no name is left when it has no singular. -/
def aliasName (expanded : List Char) : Option AliasName × List Fault :=
  let (name, token) := Noun.cutGender expanded
  let (gender, faults) :=
    match token.map Gender.ofToken with
    | none => (Gender.unspecified, [])
    | some (.ok gender) => (gender, [])
    | some (.error fault) => (.unspecified, [fault])
  let (singular, plural) := Noun.forms name
  if singular.isEmpty then (none, faults ++ [.emptyName])
  else (some ⟨String.ofList singular, String.ofList plural, gender⟩, faults)

def addItem (p : Place) (name : AliasName) (v : Variation) (l : Loader) (item : Variation) :
    Loader :=
  let merged := item.merge v
  match merged.id with
  | none => l.report p (.emptyAlias name.singular)
  | some id =>
    match l.registry.addAlias name (Text.lowercase id) merged.tags merged.states with
    | (none, r) => { l with registry := r }
    | (some fault, r) => { l with registry := r }.report p fault

def addExpanded (p : Place) (items : List Variation) (l : Loader)
    (named : List Char × Variation) : Loader :=
  let (name, faults) := aliasName named.1
  let l := l.reportAll p faults
  match name with
  | none => l
  | some name =>
    if items.isEmpty then l.report p (.emptyAlias name.singular)
    else items.foldl (addItem p name named.2) l

def addName (p : Place) (items : List Variation) (l : Loader) (name : List Char) : Loader :=
  let (named, faults) := Expansion.ofName l.registry.group? name
  named.foldl (addExpanded p items) (l.reportAll p faults)

def addAlias (l : Loader) (p : Place) (pattern : String) (data : String) : Loader :=
  if (Text.trim pattern.toList).isEmpty then l.report p .emptyName
  else
    let (items, faults) := definitions (Segment.nonEmpty ',' data.toList)
    let (expansion, l) := (l.reportAll p faults).expand pattern
    expansion.names.foldl (addName p items) (l.reportAll p expansion.faults)

def entryKey (key : List Char) : String :=
  if String.ofList key = VariationGroup.defaultKey then VariationGroup.defaultKey
  else String.ofList (Noun.normal key)

def addVariation (p : Place) (l : Loader) (g : VariationGroup) (key value : String) :
    Loader × VariationGroup :=
  match Variation.read value.toList with
  | .error fault => (l.report p fault, g)
  | .ok v =>
    let l :=
      if key ≠ VariationGroup.defaultKey ∧ v.isUseless then l.report p (.uselessVariation key)
      else l
    let (expansion, l) := l.expand key
    (l.reportAll p expansion.faults,
      expansion.names.foldl (fun g k => g.push (entryKey k) v) g)

def variations (source : Option String) (l : Loader) (g : VariationGroup) :
    List Outline.Node → Loader × VariationGroup
  | [] => (l, g)
  | .entry key value line :: ns =>
    let (l, g) := l.addVariation ⟨source, line⟩ g key value
    variations source l g ns
  | .heading _ line _ :: ns =>
    variations source (l.report ⟨source, line⟩ .unexpectedSection) g ns

def isBraced (key : String) : Bool :=
  let s := key.toList
  2 < Text.byteLength s && s.head? == some '\x7b' && s.getLast? == some '\x7d'

/-- Loads the nodes of a section up to the first condition that does not hold. -/
def nodes (source : Option String) (l : Loader) : List Outline.Node → Loader
  | [] => l
  | .heading key line children :: ns =>
    if isBraced key then
      let (l, g) := variations source l .empty children
      nodes source { l with registry := l.registry.addGroup key g } ns
    else nodes source (l.report ⟨source, line⟩ (.invalidVariationSection key)) ns
  | .entry key value line :: ns =>
    match l.conditions.check key value with
    | some true => nodes source l ns
    | some false => l
    | none => nodes source (l.addAlias ⟨source, line⟩ key value) ns

def outline (source : Option String) (l : Loader) : List Outline.Node → Loader
  | [] => l
  | .heading _ _ children :: ns => outline source (nodes source l children) ns
  | .entry _ _ line :: ns => outline source (l.report ⟨source, line⟩ .outsideSection) ns

def text (l : Loader) (source : Option String) (text : String) : Loader :=
  let (ns, faults) := Outline.read text
  outline source (faults.foldl (fun l f => l.report ⟨source, f.1⟩ f.2) l) ns

def missingName (id : String) : String :=
  Platform.replaceChar '_' ' ' (keyOf id) ++ String.ofList [Noun.pluralMark, 's']

def missing (r : Registry) : List String :=
  ((List.range r.platform.materials.length).filter fun m => !r.hasMaterial m).filterMap
    fun m => (r.platform.info? m).map MaterialInfo.id

def addMissing (l : Loader) : Loader :=
  (missing l.registry).foldl (fun l id => l.addAlias ⟨none, 0⟩ (missingName id) id) l

end Loader

end ItemLexicon
