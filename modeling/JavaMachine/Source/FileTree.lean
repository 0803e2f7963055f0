import JavaMachine.Separated

/-! # File trees

Directories with the files below them, as data, and what reading a file at a path gives. A path is
walked one part after the other, as an operating system does it, from the root or from the current
directory. -/

namespace JavaMachine

/-- The files below the root, by the parts of their paths. The directories are those that the files
are in. Of two files at one path the later one counts. -/
structure FileTree where
  files : List (List String × List UInt8)
  /-- The directory in which relative paths start. -/
  current : List String := []
  deriving DecidableEq, Inhabited

/-- What reading a file gives: its bytes, nothing, or a failure other than that it is missing. -/
inductive FileContent where
  | found (bytes : List UInt8)
  | missing
  | failed
  deriving DecidableEq, Inhabited

namespace FileTree

/-- The parts of a path between its slashes. -/
def partsOf (path : String) : List String :=
  Separated.parts '/' path

/-- The parts of a path that lead somewhere: empty ones and single dots do not. -/
def stepsOf (path : String) : List String :=
  (partsOf path).filter fun part => part != "" && part != "."

/-- The tree with a current directory and files at paths from there. -/
def ofFiles (current : List String) (files : List (String × List UInt8)) : FileTree where
  files := files.map fun (path, bytes) => (current ++ stepsOf path, bytes)
  current

/-- The bytes of the file at exactly these parts. -/
def file? (tree : FileTree) (parts : List String) : Option (List UInt8) :=
  (tree.files.reverse.find? (·.1 == parts)).map (·.2)

/-- Whether a file is below a directory. -/
def isDirectory (tree : FileTree) (parts : List String) : Bool :=
  parts.isEmpty || tree.files.any fun (path, _) => parts.isPrefixOf path && parts != path

/-- The longest name a file can have, in bytes. -/
def maxNameLength : Nat := 255

/-- The length, in bytes, from which on a path is too long. -/
def maxPathLength : Nat := 4096

/-- Walks on from a directory, the parts of whose path are given last first. -/
def walk (tree : FileTree) : (directory : List String) → List String → FileContent
  | _, [] => .failed
  | directory, part :: rest =>
    if part == "" || part == "." then walk tree directory rest
    else if part == ".." then
      walk tree directory.tail rest
    else if part.utf8ByteSize > maxNameLength then .failed
    else
      let path := (part :: directory).reverse
      match tree.file? path with
      | some bytes => if rest.isEmpty then .found bytes else .failed
      | none => if tree.isDirectory path then walk tree (part :: directory) rest else .missing

/-- Reads the file at a path. -/
def read (tree : FileTree) (path : String) : FileContent :=
  if path.toList.contains (Char.ofNat 0) || path.utf8ByteSize ≥ maxPathLength then .failed
  else
    let start := if path.startsWith "/" then [] else tree.current.reverse
    tree.walk start (partsOf path)

/-- A path below a directory; an absolute path stands for itself. -/
def join (directory path : String) : String :=
  if path.startsWith "/" then path
  else if directory.isEmpty || directory.endsWith "/" then directory ++ path
  else directory ++ "/" ++ path

end FileTree

end JavaMachine
