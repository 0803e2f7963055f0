import JavaMachine.Separated

/-! # Command lines

The arguments with which the launcher is called: options, then the name of a class, then what is
passed on to it. Options may also follow the name, up to the first argument that is passed on; a
double hyphen ends them. -/

namespace JavaMachine

/-- What the launcher is asked to run. -/
structure CommandLine where
  /-- Directories and archives, with colons between them. -/
  classPath : String
  /-- The calls that may be in progress at one time, if the command line says so. -/
  callDepth : Option Nat
  /-- Whether every instruction is to be logged. -/
  trace : Bool
  className : String
  arguments : List String
  deriving DecidableEq, Inhabited

namespace CommandLine

/-- Why a command line runs nothing. -/
inductive Refusal where
  /-- It is not understood. -/
  | usage
  /-- It asks for a description of the options. -/
  | help
  /-- It asks for the version. -/
  | version
  deriving DecidableEq, Inhabited

/-- The options. -/
inductive Setting where
  | classPath
  | callDepth
  | trace
  | help
  | version
  deriving DecidableEq, Inhabited

namespace Setting

/-- The option with a name of its own, which follows two hyphens. -/
def ofName? : String → Option Setting
  | "class-path" | "cp" => some classPath
  | "max-call-depth" => some callDepth
  | "trace" => some trace
  | "help" => some help
  | "version" => some version
  | _ => none

/-- The option with a letter of its own, which follows one hyphen. -/
def ofLetter? : Char → Option Setting
  | 'c' => some classPath
  | 'h' => some help
  | 'V' => some version
  | _ => none

/-- Whether an option comes with a value. -/
def hasValue : Setting → Bool
  | classPath | callDepth => true
  | _ => false

end Setting

/-- What one argument is. -/
inductive Argument where
  /-- The end of the options. -/
  | terminator
  /-- An option, with the value that is joined to it, if there is one. -/
  | option (setting : Setting) (value : Option String)
  /-- Looks like an option but is none. -/
  | unknown
  | plain
  deriving DecidableEq, Inhabited

namespace Argument

/-- An option that is spelled out, with a value after an equals sign. -/
def ofLong (text : List Char) : Argument :=
  match Setting.ofName? (String.ofList (text.takeWhile (· ≠ '='))), text.dropWhile (· ≠ '=') with
  | some setting, [] => option setting none
  | some setting, _ :: value => option setting (some (String.ofList value))
  | none, _ => unknown

/-- The value joined to an option of one letter; an equals sign before it does not belong to it. -/
def joined? : List Char → Option String
  | [] => none
  | '=' :: value => some (String.ofList value)
  | value => some (String.ofList value)

/-- An option of one letter. Letters after one without a value are never reached. -/
def ofShort (letter : Char) (rest : List Char) : Argument :=
  match Setting.ofLetter? letter with
  | some setting => option setting (if setting.hasValue then joined? rest else none)
  | none => unknown

/-- What an argument is by itself. -/
def ofText (text : String) : Argument :=
  match text.toList with
  | ['-', '-'] => terminator
  | '-' :: '-' :: long => ofLong long
  | '-' :: letter :: rest => ofShort letter rest
  | _ => plain

/-- Whether all letters after a single hyphen are options. -/
def allLetters (text : String) : Bool :=
  match text.toList with
  | '-' :: '-' :: _ => true
  | _ :: letters => letters.all fun letter => (Setting.ofLetter? letter).isSome
  | [] => true

/-- What an argument is where arguments may be passed on to the class: whatever is not an option
entirely is passed on. -/
def ofTrailing (text : String) : Argument :=
  match ofText text with
  | unknown => plain
  | option setting value => if allLetters text then option setting value else plain
  | argument => argument

/-- What an argument is, before or after the name of the class. -/
def classify (className : Option String) (text : String) : Argument :=
  if className.isSome then ofTrailing text else ofText text

end Argument

/-- The options read so far. -/
structure Given where
  classPath : Option String := none
  callDepth : Option Nat := none
  trace : Bool := false
  deriving DecidableEq, Inhabited

namespace Given

/-- The number that a text spells in decimal digits, after a plus sign or without it, if it fits
into 64 bits. -/
def number? (text : String) : Option Nat :=
  let digits := match text.toList with
    | '+' :: digits => digits
    | digits => digits
  if digits.isEmpty || !digits.all (·.isDigit) then none
  else
    let value := digits.foldl (fun value digit => 10 * value + (digit.toNat - '0'.toNat)) 0
    if value < UInt64.size then some value else none

/-- Adds an option without a value. -/
def addFlag (given : Given) : Setting → Except Refusal Given
  | .trace => if given.trace then .error .usage else .ok { given with trace := true }
  | .help => .error .help
  | .version => .error .version
  | .classPath | .callDepth => .error .usage

/-- Adds an option with its value; none is given twice. -/
def addValue (given : Given) (setting : Setting) (value : String) : Except Refusal Given :=
  match setting, given.classPath, given.callDepth, number? value with
  | .classPath, none, _, _ => .ok { given with classPath := some value }
  | .callDepth, _, none, some number => .ok { given with callDepth := some number }
  | _, _, _, _ => .error .usage

/-- The command line that names a class and what is passed on to it. -/
def command (given : Given) (className : String) (arguments : List String) : CommandLine where
  classPath := given.classPath.getD "."
  callDepth := given.callDepth
  trace := given.trace
  className
  arguments

/-- The rest of a command line, in which there are no more options. -/
def last (given : Given) : Option String → List String → Except Refusal CommandLine
  | some className, arguments => .ok (given.command className arguments)
  | none, className :: arguments => .ok (given.command className arguments)
  | none, [] => .error .usage

/-- Reads the rest of a command line, in which there may be options. -/
def read (given : Given) (className : Option String) :
    List String → Except Refusal CommandLine
  | [] => given.last className []
  | text :: rest =>
    match Argument.classify className text with
    | .terminator => given.last className rest
    | .unknown => .error .usage
    | .plain =>
      if className.isSome then given.last className (text :: rest)
      else read given (some text) rest
    | .option setting (some value) => do
      let given ← given.addValue setting value
      read given className rest
    | .option setting none =>
      if setting.hasValue then
        match rest with
        | [] => .error .usage
        | value :: rest =>
          if Argument.classify className value = .plain then do
            let given ← given.addValue setting value
            read given className rest
          else .error .usage
      else do
        let given ← given.addFlag setting
        read given className rest

end Given

/-- Reads a command line. -/
def read (arguments : List String) : Except Refusal CommandLine :=
  Given.read {} none arguments

/-! ## Class paths -/

/-- The entries of the class path; empty ones do not count. -/
def entries (command : CommandLine) : List String :=
  (Separated.parts ':' command.classPath).filter (· != "")

end CommandLine

end JavaMachine
