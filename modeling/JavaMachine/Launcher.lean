import JavaMachine.CommandLine
import JavaMachine.Host.Session

/-! # The launcher

Runs the main method of a class and tells how it went, as a command does: by an exit status and by
what is written to standard output and standard error. -/

namespace JavaMachine

/-- What a command leaves behind. -/
structure Outcome where
  status : Nat
  output : String
  errors : String
  deriving DecidableEq, Inhabited

namespace Launcher

/-! ## Class paths -/

/-- The name of the file or directory at a path, if the path ends in one. -/
def fileName? (path : String) : Option String :=
  ((FileTree.stepsOf path).getLast?).filter (· != "..")

/-- What follows the last dot of a file name, unless the name starts with that dot. -/
def extension? (name : String) : Option String :=
  let reversed := name.toList.reverse
  match reversed.dropWhile (· ≠ '.') with
  | [] | ['.'] => none
  | _ => some (String.ofList (reversed.takeWhile (· ≠ '.')).reverse)

/-- Whether an entry of the class path is an archive, by its extension in any case of letters. -/
def isArchive (path : String) : Bool :=
  match (fileName? path).bind extension? with
  | none => false
  | some extension =>
    let folded := String.ofList (extension.toList.map Char.toLower)
    folded == "jar" || folded == "zip"

/-- The source that an entry of the class path stands for. -/
def source (tree : FileTree) (entry : String) : Except Error ClassSource :=
  if isArchive entry then ClassSource.openArchive tree entry
  else .ok (.directory tree entry)

/-! ## Running -/

/-- The method that is run. -/
def mainName : String := "main"
def mainDescriptor : String := "([Ljava/lang/String;)V"

/-- The instructions that each call from the host may execute. -/
def fuel : Nat := 1 <<< 60

/-- A session for a command line. -/
def session (tree : FileTree) (command : CommandLine) : Except Error Session := do
  let sources ← command.entries.mapM (source tree)
  let limits : Limits := match command.callDepth with
    | some callDepth => { callDepth }
    | none => {}
  Session.start { sources, limits, fuel }

/-- Runs the main method of the class. -/
def runMain (command : CommandLine) : Exec Unit := do
  let c ← Session.load command.className
  let arguments := HostValue.array (command.arguments.map .string)
  let _ ← (Target.ofClass c).callExactly mainName mainDescriptor [arguments]

/-- What is said of an error on standard error, after what was written there before. An error that
is no throwable starts a line of its own. -/
def complain (before : String) : Error → String
  | .thrown className detail _ =>
    let suffix := (detail.map (": " ++ ·)).getD ""
    before ++ "Exception in thread \"main\" " ++ ClassName.dotted className ++ suffix ++ "\n"
  | error =>
    let lineEnd := if before.isEmpty || before.endsWith "\n" then "" else "\n"
    before ++ lineEnd ++ "Error: " ++ error.message ++ "\n"

/-- Runs the main method of the class that a command line names. -/
def launch (tree : FileTree) (command : CommandLine) : Outcome :=
  match session tree command with
  | .error error => ⟨1, "", complain "" error⟩
  | .ok session =>
    let (result, session) := session.perform (runMain command)
    let machine := session.machine
    match result with
    | .ok () => ⟨0, machine.output, machine.errors⟩
    | .error error => ⟨1, machine.output, complain machine.errors error⟩

/-! ## The command -/

def version : String := "java 0.1.0\n"

/-- How the command is used. -/
def usage : String :=
  "Usage: java [OPTIONS] <CLASS> [ARGS]...\n"
    ++ "  -c, --class-path, --cp <PATHS>  directories and archives, separated by ':'\n"
    ++ "      --max-call-depth <N>        calls allowed in progress at one time\n"
    ++ "      --trace                     accepted, without effect\n"

/-- What the command does with its arguments in a tree of files. -/
def execute (tree : FileTree) (arguments : List String) : Outcome :=
  match CommandLine.read arguments with
  | .ok command => launch tree command
  | .error .usage => ⟨2, "", "error: unexpected arguments\n\n" ++ usage⟩
  | .error .help => ⟨0, usage, ""⟩
  | .error .version => ⟨0, version, ""⟩

end Launcher

end JavaMachine
