import ItemLexicon.CommandLine.Run

namespace ItemLexicon.CommandLine

def readInto (root : FileTree) (path : String) : IO FileTree := do
  try
    let content ← IO.FS.readBinFile path
    return root.write path (some content.toList)
  catch _ => return root

partial def readListed (paths : IO.FS.Stream) (root : FileTree) : IO FileTree := do
  let path ← paths.getLine
  if path.isEmpty then return root
  readListed paths (← readInto root (String.ofList (Text.trim path.toList)))

def filesFor (i : Invocation) : IO FileTree := do
  let named := i.platform :: i.sources
  let root ← named.foldlM readInto (.directory [])
  if named.all fun path => (root.at? path).isSome then return root
  readListed (← IO.getStdin) root

end ItemLexicon.CommandLine

open ItemLexicon.CommandLine in
def main (args : List String) : IO UInt32 := do
  let request := Request.ofArguments args
  let root ← match request with
    | .run i => filesFor i
    | _ => pure (.directory [])
  let outcome := request.answer root
  (← IO.getStdout).putStr outcome.output
  (← IO.getStderr).putStr outcome.errors
  return UInt32.ofNat outcome.code
