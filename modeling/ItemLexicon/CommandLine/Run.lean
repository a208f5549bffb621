import ItemLexicon.CommandLine.Help
import ItemLexicon.Lexicon
import ItemLexicon.Platform.Table
import ItemLexicon.Tag.Strict
import ItemLexicon.Text.Escaped

namespace ItemLexicon.CommandLine

structure Outcome where
  output : String
  errors : String
  code : Nat
  deriving DecidableEq

namespace Outcome

def failed (output errors : String) (failure : Failure) : Outcome :=
  ⟨output, errors ++ "Error: " ++ failure.message ++ "\n", 1⟩

end Outcome

def loadPlatform (root : FileTree) (path : String) : Except Failure Platform :=
  match root.at? path with
  | none => .error .unreadable
  | some t =>
    match t.text with
    | .error failure => .error failure
    | .ok text => (Platform.ofJson? text).elim (.error .json) .ok

def sourceLineOf (path : String) : String :=
  "Loading aliases from " ++ String.ofList (Text.inQuotes path.toList) ++ "...\n"

def loadSources (root : FileTree) (l : Loader) (output : String) :
    List String → String × Option Failure × Loader
  | [] => (output, none, l)
  | path :: paths =>
    let output := output ++ sourceLineOf path
    match l.path root path with
    | (none, l) => loadSources root l output paths
    | (some failure, l) => (output, some failure, l)

def boolText (b : Bool) : String := if b then "true" else "false"

def variantText (i : Item) (id : String) : String :=
  let tags := i.tags
  if tags.isEmpty then "  - " ++ id ++ "\n"
  else "  - " ++ id ++ " " ++ Tags.json tags ++ "\n"

def resolveText (c : Context) (name : String) : String :=
  match c.resolve? name with
  | none => "'" ++ name ++ "' is not an item type\n"
  | some s =>
    c.describe s ++ "\n  Amount: " ++ toString s.amount ++ "\n  All: " ++ boolText s.all ++ "\n"
      ++ String.join ((s.types.zip (c.rawNames s)).map fun (i, id) => variantText i id)

def genderText : Gender → String
  | .unspecified => "Unspecified"
  | .a => "A"
  | .an => "An"
  | .plural => "Plural"
  | .uncountable => "Uncountable"

def qualityText : Quality → String
  | .exact => "Exact"
  | .sameItem => "SameItem"
  | .sameMaterial => "SameMaterial"
  | .different => "Different"

def optionalLine (label : String) : Option String → String
  | some s => "  " ++ label ++ ": " ++ s ++ "\n"
  | none => ""

def itemText (c : Context) (i : Item) : String :=
  c.nameOf i false ++ "\n  Plural: " ++ c.nameOf i true
    ++ "\n  Gender: " ++ genderText (c.genderOf i)
    ++ "\n  Match: " ++ qualityText (c.registry.find i).quality ++ "\n"
    ++ optionalLine "Minecraft id" (c.idOf? i)
    ++ optionalLine "Related entity" (c.relatedEntityOf? i)

def describedItem (p : Platform) (material : String) (tags : Option String) (damage : Nat) :
    Except Failure Item :=
  match (p.material? material).bind fun m => (p.info? m).map fun info => (m, info) with
  | none => .error (.unknownMaterial material)
  | some (m, info) =>
    match tags with
    | none => .ok (.ofStack m info damage [])
    | some text =>
      match Tags.ofJson? text with
      | none => .error .json
      | some tags => .ok (.ofStack m info damage tags)

def infoText (r : Registry) (ds : List Diagnostic) : String :=
  "\nAlias Info:\n  Names: " ++ toString r.aliasCount
    ++ "\n  Items: " ++ toString r.scope.index.size
    ++ "\n  Errors: " ++ toString (Diagnostic.errorCount ds)
    ++ "\n  Warnings: " ++ toString (Diagnostic.warningCount ds) ++ "\n"
    ++ String.join (ds.map fun d => "  " ++ d.message ++ "\n")

def commandText (r : Registry) (ds : List Diagnostic) : Command → Except Failure String
  | .resolve name => .ok (resolveText (.ofRegistry r) name)
  | .name material tags damage =>
    (describedItem r.platform material tags damage).map (itemText (.ofRegistry r))
  | .info => .ok (infoText r ds)

def summary (ds : List Diagnostic) : String :=
  if ds.isEmpty then ""
  else "Loaded with " ++ toString (Diagnostic.errorCount ds) ++ " errors and "
    ++ toString (Diagnostic.warningCount ds) ++ " warnings\n"

def Invocation.run (root : FileTree) (i : Invocation) : Outcome :=
  match loadPlatform root i.platform with
  | .error failure => .failed "" "" failure
  | .ok p =>
    match loadSources root (.start (.empty p) (.ofVersion p.version)) "" i.sources with
    | (output, some failure, _) => .failed output "" failure
    | (output, none, l) =>
      let l := if i.missing then l.addMissing else l
      let errors := summary l.diagnostics
      match commandText l.registry l.diagnostics i.command with
      | .error failure => .failed output errors failure
      | .ok text => ⟨output ++ text, errors, 0⟩

def Request.answer (root : FileTree) : Request → Outcome
  | .run i => i.run root
  | .help topic => ⟨helpText topic, "", 0⟩
  | .version => ⟨versionText, "", 0⟩
  | .misuse => ⟨"", overview, 2⟩

end ItemLexicon.CommandLine
