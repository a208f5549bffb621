import ItemLexicon.Definition.Segment
import ItemLexicon.Match.Quality

namespace ItemLexicon

structure BlockValues where
  states : States
  isDefault : Bool
  deriving DecidableEq

namespace BlockValues

def default : BlockValues := ⟨[], true⟩

def explicit (states : States) : BlockValues := ⟨states, false⟩

/-- Every state that the pattern names has the same value on the subject. -/
def covers (subject pattern : BlockValues) : Bool :=
  pattern.states.all fun s => Dictionary.get? s.1 subject.states == some s.2

def compare (subject pattern : BlockValues) : Quality :=
  if subject.states = pattern.states then .exact
  else if subject.covers pattern then .sameItem
  else .sameMaterial

end BlockValues

end ItemLexicon
