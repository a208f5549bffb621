import ItemLexicon.Archive.Zip
import ItemLexicon.Loading.FileTree
import ItemLexicon.Loading.Loader

namespace ItemLexicon.Loader

def sources (l : Loader) : List Source → Option Failure × Loader
  | [] => (none, l)
  | s :: ss =>
    match s.text with
    | .ok text => sources (l.text (some s.name) text) ss
    | .error failure => (some failure, l)

def file (l : Loader) (root : FileTree) (path : String) : Option Failure × Loader :=
  match root.at? path with
  | none => (some .unreadable, l)
  | some t => l.sources [⟨path, t.text⟩]

def directory (l : Loader) (root : FileTree) (path : String) : Option Failure × Loader :=
  match root.at? path with
  | some (.directory es) => l.sources (FileTree.sourcesOf path es)
  | _ => (some .unreadable, l)

def archiveBytes (l : Loader) (bs : List UInt8) : Option Failure × Loader :=
  match Zip.entries bs with
  | .error failure => (some failure, l)
  | .ok entries => l.sources (Source.ofArchive entries)

def archive (l : Loader) (root : FileTree) (path : String) : Option Failure × Loader :=
  match root.at? path with
  | none => (some .unreadable, l)
  | some (.directory es) => l.sources (FileTree.sourcesOf path es)
  | some (.file bytes) => l.archiveBytes bytes

def path (l : Loader) (root : FileTree) (path : String) : Option Failure × Loader :=
  if (root.at? path).any FileTree.isDirectory then l.directory root path
  else if FileTree.pathExtension? path = some "zip" then l.archive root path
  else l.file root path

end ItemLexicon.Loader
