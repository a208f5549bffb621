import ItemLexicon.Loading.Diagnostic
import ItemLexicon.Text.Cut

namespace ItemLexicon

/-- A named text.  That it cannot be read is found out when its turn comes, after the sources before
it are loaded. -/
structure Source where
  name : String
  text : Except Failure String

namespace Source

def isHidden (name : String) : Bool := name.toList.head? = some '.'

/-- Whether the parts of a slashed name show no hidden file or directory, and the last one ends as
alias files do. -/
def isListed (name : String) : Bool :=
  ".sk".toList.isSuffixOf name.toList &&
    !(Text.splitOn '/' name.toList).any fun s => isHidden (String.ofList s)

def ofArchive (entries : List Source) : List Source :=
  (entries.filter fun s => isListed s.name).mergeSort fun s t => s.name ≤ t.name

end Source

end ItemLexicon
