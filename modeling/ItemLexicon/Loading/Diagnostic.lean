import ItemLexicon.Definition.Fault

namespace ItemLexicon

structure Diagnostic where
  source : Option String
  line : Option Nat
  fault : Fault
  deriving DecidableEq

namespace Diagnostic

def isWarning (d : Diagnostic) : Bool := d.fault.isWarning

def message (d : Diagnostic) : String :=
  match d.source, d.line with
  | some source, some line => source ++ ":" ++ toString line ++ ": " ++ d.fault.message
  | some source, none => source ++ ": " ++ d.fault.message
  | none, some line => "line " ++ toString line ++ ": " ++ d.fault.message
  | none, none => d.fault.message

def errorCount (ds : List Diagnostic) : Nat := ds.countP (!·.isWarning)

def warningCount (ds : List Diagnostic) : Nat := ds.countP (·.isWarning)

end Diagnostic

inductive Failure
  | unreadable
  | archive
  | json
  | unknownMaterial (id : String)
  deriving DecidableEq

namespace Failure

def message : Failure → String
  | unreadable => "Cannot read a file or directory"
  | archive => "Malformed archive"
  | json => "Malformed JSON"
  | unknownMaterial id => "Unknown material: " ++ id

end Failure

end ItemLexicon
