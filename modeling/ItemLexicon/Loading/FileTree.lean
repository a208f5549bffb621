import ItemLexicon.Dictionary
import ItemLexicon.Loading.Source
import ItemLexicon.Text.Utf8

namespace ItemLexicon

inductive FileTree
  | file (content : List UInt8)
  | directory (entries : List (String × FileTree))

namespace FileTree

def isDirectory : FileTree → Bool
  | file _ => false
  | directory _ => true

def components (path : String) : List String :=
  (Text.splitOn '/' path.toList).map String.ofList

/-- Follows the components of a path.  The trail holds the place reached and the directories above
it, the nearest first. -/
def follow? : List FileTree → List String → Option FileTree
  | [], _ => none
  | t :: _, [] => some t
  | file _ :: _, _ :: _ => none
  | directory es :: trail, c :: cs =>
    if c = "" ∨ c = "." then follow? (directory es :: trail) cs
    else if c = ".." then follow? trail cs
    else (Dictionary.get? c es).bind fun t => follow? (t :: directory es :: trail) cs

def at? (root : FileTree) (path : String) : Option FileTree :=
  if path.toList.head? = some '/' then none
  else if path = "" then some root
  else follow? [root] (components path)

def put (content : Option (List UInt8)) : List String → FileTree → FileTree
  | [], t =>
    match content, t with
    | some bytes, _ => file bytes
    | none, directory es => directory es
    | none, file _ => directory []
  | c :: cs, t =>
    let es := match t with
      | directory es => es
      | file _ => []
    directory (Dictionary.insert c (put content cs ((Dictionary.get? c es).getD (directory []))) es)

def write (root : FileTree) (path : String) (content : Option (List UInt8)) : FileTree :=
  put content ((components path).filter fun c => c ≠ "" ∧ c ≠ ".") root

def text : FileTree → Except Failure String
  | file content => (Utf8.read? content).elim (.error .unreadable) .ok
  | directory _ => .error .unreadable

def extension? (name : String) : Option String :=
  match Text.cutLast '.' name.toList with
  | some (before, after) => if before.isEmpty then none else some (String.ofList after)
  | none => none

def pathExtension? (path : String) : Option String :=
  match ((components path).filter fun c => c ≠ "" ∧ c ≠ ".").getLast? with
  | none => none
  | some name => if name = ".." then none else extension? name

def join (directory name : String) : String :=
  match directory.toList.getLast? with
  | none | some '/' => directory ++ name
  | some _ => directory ++ "/" ++ name

mutual

/-- The alias files at a path below a directory, in the order of their names.  Hidden directories
are skipped, hidden files are not. -/
def sourcesAt (path name : String) : FileTree → List Source
  | file content =>
    if extension? name = some "sk" then [⟨path, text (file content)⟩] else []
  | directory es => if Source.isHidden name then [] else sourcesOf path es

def sourcesOf (path : String) : List (String × FileTree) → List Source
  | [] => []
  | (name, t) :: es => sourcesAt (join path name) name t ++ sourcesOf path es

end

end FileTree

end ItemLexicon
