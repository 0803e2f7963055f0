import JavaMachine.Class.Subtype
import JavaMachine.Native.Object
import JavaMachine.Number.Decimal
import JavaMachine.Utf16

/-! # Native methods of the system: streams, array copies and clocks -/

namespace JavaMachine.Native

/-! ## Print streams -/

/-- The files that print streams write to. -/
inductive StandardFile where
  | output
  | errors
  deriving DecidableEq, Inhabited

namespace StandardFile

/-- The number by which a print stream knows its file. -/
def number : StandardFile → Int32
  | output => 1
  | errors => 2

end StandardFile

namespace StreamMethods

/-- What `print` takes. -/
inductive Printable where
  | boolean
  | char
  | int
  | long
  | float
  | double
  | string
  | object
  deriving DecidableEq, Inhabited

namespace Printable

/-- Everything `print` takes, in the order in which the methods are declared. -/
def all : List Printable :=
  [boolean, char, int, long, float, double, string, object]

/-- The descriptor of the method that prints it. -/
def descriptor : Printable → String
  | boolean => "(Z)V"
  | char => "(C)V"
  | int => "(I)V"
  | long => "(J)V"
  | float => "(F)V"
  | double => "(D)V"
  | string => "(Ljava/lang/String;)V"
  | object => "(Ljava/lang/Object;)V"

/-- The text that is printed for the argument. -/
def text (kind : Printable) (call : NativeCall) : Exec String :=
  match kind with
  | boolean => do return if (← call.int 1) ≠ 0 then "true" else "false"
  | char => do return (Utf16.charOf (← call.int 1).toUInt32.toUInt16).toString
  | int => do return toString (← call.int 1).toInt
  | long => do return toString (← call.long 1).toInt
  | float => do return Single.text (← call.float 1)
  | double => do return Double.text (← call.double 1)
  | string | object => do Exec.textOf (← call.reference 1)

end Printable

/-- The number of the file that a stream writes to; standard output if it has none. -/
def fileOf (ref : Ref) : Exec Int32 := do
  let object ← Exec.object ref
  match (object.type.instanceField? MemberName.fileNumber).bind (object.field? ·.slot) with
  | some (.int number) => return number
  | _ => return StandardFile.output.number

/-- Writes a text to the file of the receiver. -/
def write (text : Exec String) (call : NativeCall) : Exec (Option Value) := do
  let text ← text
  let number ← fileOf (← call.receiver)
  Exec.print (number == StandardFile.errors.number) text
  return none

def print (kind : Printable) : NativeFunction := fun call =>
  write (kind.text call) call

def printLine (kind : Printable) : NativeFunction := fun call =>
  write (do return (← kind.text call) ++ "\n") call

def printEnd : NativeFunction := fun call =>
  write (return "\n") call

def table : NativeTable :=
  (⟨ClassName.printStream, "println", "()V"⟩, printEnd) ::
  Printable.all.flatMap fun kind => [
    (⟨ClassName.printStream, "print", kind.descriptor⟩, print kind),
    (⟨ClassName.printStream, "println", kind.descriptor⟩, printLine kind)]

end StreamMethods

/-! ## The system class -/

namespace SystemMethods

/-- A new print stream for a file. -/
def newStream (file : StandardFile) : Exec Ref := do
  let c ← Exec.load ClassName.printStream
  Exec.ensureInitialized c
  let stream ← Exec.allocate (.ofClass c)
  match c.instanceField? MemberName.fileNumber with
  | none => Exec.fail (.noSuchField ClassName.printStream MemberName.fileNumber)
  | some field =>
    Exec.putField stream field.slot (.int file.number)
    return stream

/-- Sets a static field of the system class to a stream. -/
def assignStream (system : LinkedClass) (name : String) (stream : Ref) : Exec Unit := do
  match system.staticField? name with
  | none => Exec.fail (.noSuchField ClassName.system name)
  | some (owner, field) => Exec.setStatic owner field.slot (.reference (some stream))

/-- Opens the standard streams. -/
def openStreams : NativeFunction := fun call => do
  let output ← newStream .output
  let errors ← newStream .errors
  assignStream call.owner "out" output
  assignStream call.owner "err" errors
  return none

/-- Throws unless elements of the one type can be copied into an array of the other type. -/
def checkComponents (source target : FieldType) : Exec Unit := do
  if (!source.isReference || !target.isReference) && source ≠ target then
    Exec.throwNew ClassName.arrayStoreException
      (some ("arraycopy: type mismatch: can not copy " ++ source.descriptor ++ "[] into "
        ++ target.descriptor ++ "[]"))

/-- Throws because an object is no array. -/
def notArray {α : Type} (role : String) (object : HeapObject) : Exec α :=
  Exec.throwNew ClassName.arrayStoreException
    (some s!"arraycopy: {role} type {ClassName.dotted object.className} is not an array")

/-- Throws unless a range lies within both arrays. -/
def checkRange (sourceSize targetSize : Nat) (sourceStart targetStart count : Int) :
    Exec Unit := do
  if sourceStart < 0 ∨ targetStart < 0 ∨ count < 0 then
    outside s!"negative position or length {count}"
  if sourceStart + count > sourceSize then
    outside s!"last source index {sourceStart + count} out of bounds for length {sourceSize}"
  if targetStart + count > targetSize then
    outside s!"last destination index {targetStart + count} out of bounds for length {targetSize}"
where
  outside (text : String) : Exec Unit :=
    Exec.throwNew ClassName.arrayIndexOutOfBoundsException (some ("arraycopy: " ++ text))

/-- Throws unless a value can be an element of an array of a class. -/
def checkAssignable (target : LinkedClass) (value : Value) : Exec Unit := do
  match value, target.element with
  | .reference (some ref), some expected =>
    let element ← Exec.object ref
    if !element.type.isAssignableTo expected then
      let name := ClassName.dotted element.className
      let into := ClassName.dotted target.name
      Exec.throwNew ClassName.arrayStoreException
        (some s!"arraycopy: element type {name} cannot be stored into {into}")
  | _, _ => return

/-- Stores values into consecutive elements of an array, up to the first that does not fit. -/
def storeAll (ref : Ref) (target : LinkedClass) : (position : Nat) → List Value → Exec Unit
  | _, [] => return
  | position, value :: rest => do
    checkAssignable target value
    Exec.setSlot ref position value
    storeAll ref target (position + 1) rest

/-- Copies a range of elements. They are all read before the first one is written. -/
def copyElements (source target : Ref) (sourceStart targetStart count : Int) : Exec Unit := do
  let sourceObject ← Exec.object source
  let targetObject ← Exec.object target
  match sourceObject.array?, targetObject.array? with
  | none, _ => notArray "source" sourceObject
  | some _, none => notArray "destination" targetObject
  | some (sourceType, elements), some (targetType, replaced) =>
    checkComponents sourceType targetType
    checkRange elements.size replaced.size sourceStart targetStart count
    let start := sourceStart.toNat
    let values := (elements.extract start (start + count.toNat)).toList
    storeAll target targetObject.type targetStart.toNat values

def arraycopy : NativeFunction := fun call => do
  let source ← call.reference 0
  let sourceStart ← call.int 1
  let target ← call.reference 2
  let targetStart ← call.int 3
  let count ← call.int 4
  match source, target with
  | some source, some target =>
    copyElements source target sourceStart.toInt targetStart.toInt count.toInt
    return none
  | _, _ => Exec.throwNew ClassName.nullPointerException none

def identityHashCode : NativeFunction := fun call => do
  match ← call.reference 0 with
  | some ref => return some (.int (ObjectMethods.identityHash ref))
  | none => return some (.int 0)

/-- The time in nanoseconds. Every reading is a microsecond later than the one before. -/
def readClock : Exec Nat :=
  modifyGet fun machine => (machine.clock, { machine with clock := machine.clock + 1000 })

def currentTimeMillis : NativeFunction := fun _ => do
  return some (.long (Int64.ofNat ((← readClock) / 1000000)))

def nanoTime : NativeFunction := fun _ => do
  return some (.long (Int64.ofNat (← readClock)))

def table : NativeTable := [
  (⟨ClassName.system, MemberName.staticInitializer, "()V"⟩, openStreams),
  (⟨ClassName.system, "arraycopy", "(Ljava/lang/Object;ILjava/lang/Object;II)V"⟩, arraycopy),
  (⟨ClassName.system, "identityHashCode", "(Ljava/lang/Object;)I"⟩, identityHashCode),
  (⟨ClassName.system, "currentTimeMillis", "()J"⟩, currentTimeMillis),
  (⟨ClassName.system, "nanoTime", "()J"⟩, nanoTime)]

end SystemMethods

end JavaMachine.Native
