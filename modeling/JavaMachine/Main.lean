import JavaMachine.Launcher

/-! # The command

Reads the files that a command line may need and runs the launcher on them. -/

namespace JavaMachine.Main

/-- The parts of an absolute path from the root. -/
def partsOf (path : String) : List String :=
  FileTree.stepsOf path

/-- The content of a file. -/
def contentOf (path : String) : IO (List UInt8) := do
  return (← IO.FS.readBinFile path).toList

/-- The class files below a directory, by the parts of their paths. -/
partial def classFiles (directory : String) (parts : List String) :
    IO (List (List String × List UInt8)) := do
  let path ← IO.FS.realPath directory
  let mut found := []
  for entry in ← path.readDir do
    let below := parts ++ [entry.fileName]
    let name := directory ++ "/" ++ entry.fileName
    if ← entry.path.isDir then
      found := found ++ (← classFiles name below)
    else if entry.fileName.endsWith ".class" then
      found := found ++ [(below, ← contentOf name)]
  return found

/-- The files that an entry of the class path stands for; none if it cannot be read. -/
def filesOf (current : List String) (entry : String) :
    IO (List (List String × List UInt8)) := do
  let base := if entry.startsWith "/" then [] else current
  let parts := (base ++ FileTree.stepsOf entry).foldl
    (fun parts part => if part == ".." then parts.dropLast else parts ++ [part]) []
  try
    if Launcher.isArchive entry then
      return [(parts, ← contentOf entry)]
    else classFiles entry parts
  catch _ => return []

/-- The files that a command line may need. -/
def treeFor (arguments : List String) : IO FileTree := do
  let current := partsOf (← IO.currentDir).toString
  match CommandLine.read arguments with
  | .error _ => return { files := [], current }
  | .ok command =>
    let files ← command.entries.mapM (filesOf current)
    return { files := files.flatten, current }

end JavaMachine.Main

def main (arguments : List String) : IO UInt32 := do
  let outcome := JavaMachine.Launcher.execute (← JavaMachine.Main.treeFor arguments) arguments
  IO.print outcome.output
  IO.eprint outcome.errors
  return UInt32.ofNat outcome.status
