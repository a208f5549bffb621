import ItemLexicon.Loading.Files
import ItemLexicon.Resolution.Description

namespace ItemLexicon

structure Settings where
  defaultAliases : Bool
  missingAliases : Bool
  userDirectory : Option String
  defaultArchive : Option String
  deriving DecidableEq

namespace Settings

def standard : Settings := ⟨true, true, none, none⟩

end Settings

structure Lexicon where
  registry : Registry
  conditions : Conditions
  settings : Settings

namespace Lexicon

def ofPlatform (p : Platform) (settings : Settings) : Lexicon :=
  ⟨.empty p, .ofVersion p.version, settings⟩

def platform (x : Lexicon) : Platform := x.registry.platform

def register (x : Lexicon) (keyword : String) (condition : String → Bool) : Lexicon :=
  { x with conditions := x.conditions.register keyword condition }

def loaderFor (x : Lexicon) (r : Registry) : Loader := .start r x.conditions

def scriptRegistry (x : Lexicon) : Registry := x.registry.layer

/-- Publishes what was loaded, unless loading failed. -/
def publish (x : Lexicon) :
    Option Failure × Loader → Except Failure (List Diagnostic × Lexicon)
  | (some failure, _) => .error failure
  | (none, l) => .ok (l.diagnostics, { x with registry := l.registry })

def extend (x : Lexicon) (load : Loader → Option Failure × Loader) :
    Except Failure (List Diagnostic × Lexicon) :=
  x.publish (load (x.loaderFor x.registry))

def clear (x : Lexicon) : Lexicon := { x with registry := .empty x.platform }

def present? (root : FileTree) (path : Option String) : Option String :=
  path.filter fun p => (root.at? p).isSome

def defaults (x : Lexicon) (root : FileTree) (l : Loader) : Option Failure × Loader :=
  if !x.settings.defaultAliases then (none, l)
  else
    let (failure, l) := match present? root x.settings.defaultArchive with
      | some path => l.archive root path
      | none => (none, l)
    if failure.isNone && x.settings.missingAliases then (none, l.addMissing) else (failure, l)

def userFiles (x : Lexicon) (root : FileTree) (l : Loader) : Option Failure × Loader :=
  match present? root x.settings.userDirectory with
  | some path => l.directory root path
  | none => (none, l)

def reload (x : Lexicon) (root : FileTree) : Except Failure (List Diagnostic × Lexicon) :=
  match x.defaults root (x.loaderFor (.empty x.platform)) with
  | (some failure, _) => .error failure
  | (none, l) => x.publish (x.userFiles root l)

end Lexicon

end ItemLexicon
