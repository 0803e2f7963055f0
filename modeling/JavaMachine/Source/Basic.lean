import JavaMachine.Error
import JavaMachine.Source.Archive
import JavaMachine.Source.FileTree

/-! # Class sources

Where the bytes of classes come from, by class name. A source that does not have a class says so;
one that cannot tell fails, and the search ends there. -/

namespace JavaMachine

/-- A source of class files. -/
inductive ClassSource where
  /-- Classes held in memory; the first one with a name counts. -/
  | memory (classes : List (String × List UInt8))
  /-- Whatever a function of the host finds, of which there are at most so many classes. -/
  | host (lookup : String → Except Error (Option (List UInt8))) (size : Nat)
  /-- The files below a directory of a tree. -/
  | directory (tree : FileTree) (base : String)
  /-- The entries of a zip archive. -/
  | archive (archive : Archive)
  deriving Inhabited

namespace ClassSource

/-- The classes of a list in memory; a later one replaces an earlier one of its name. -/
def ofClasses (classes : List (String × List UInt8)) : ClassSource :=
  memory classes.reverse

/-- The archive in a file of a tree. -/
def openArchive (tree : FileTree) (path : String) : Except Error ClassSource :=
  match tree.read path with
  | .found bytes =>
    match Archive.ofBytes? bytes with
    | some content => .ok (archive content)
    | none => .error (.classLoad path .inputOutput)
  | _ => .error (.classLoad path .inputOutput)

/-- The file that holds a class. -/
def fileName (className : String) : String :=
  className ++ ".class"

/-- The number of class files a source can have at most. Each of them defines one class. -/
def size : ClassSource → Nat
  | memory classes => classes.length
  | host _ size => size
  | directory tree _ => tree.files.length
  | archive content => content.entries.length

/-- The bytes of a class; nothing if the source does not have it. -/
def find (className : String) : ClassSource → Except Error (Option (List UInt8))
  | memory classes => .ok (classes.lookup className)
  | host lookup _ => lookup className
  | directory tree base =>
    match tree.read (FileTree.join base (fileName className)) with
    | .found bytes => .ok (some bytes)
    | .missing => .ok none
    | .failed => .error (.classLoad className .inputOutput)
  | archive content =>
    match content.entry? (fileName className) with
    | none => .ok none
    | some entry =>
      match content.content? entry with
      | some bytes => .ok (some bytes)
      | none => .error (.classLoad className .inputOutput)

end ClassSource

/-- The bytes of a class in the first source that has it. -/
def findClass (className : String) : List ClassSource → Except Error (List UInt8)
  | [] => .error (.classLoad className .notFound)
  | source :: rest => do
    match ← source.find className with
    | some bytes => return bytes
    | none => findClass className rest

end JavaMachine
