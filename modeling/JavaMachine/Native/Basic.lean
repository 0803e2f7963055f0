import JavaMachine.Class.MethodTable
import JavaMachine.Machine.Initialization

/-! # Native methods

A native method has no code of its own; a function of the host stands for it. The function sees the
arguments of the call and can do whatever the machine can: make objects, call methods, throw. -/

namespace JavaMachine

/-- What a native method is called with: the receiver first, and one value for each argument. -/
structure NativeCall where
  owner : LinkedClass
  method : Method
  arguments : List Value
  deriving Inhabited

/-- The implementation of a native method. -/
abbrev NativeFunction := NativeCall → Exec (Option Value)

/-- The class, the name and the descriptor of a native method. -/
structure NativeKey where
  className : String
  name : String
  descriptor : String
  deriving DecidableEq, Inhabited

/-- The native methods by key; of equal keys the first one counts. -/
abbrev NativeTable := List (NativeKey × NativeFunction)

namespace NativeCall

/-- How messages name the method. -/
def name (call : NativeCall) : String :=
  call.owner.name ++ "." ++ call.method.key

/-- Fails because an argument is not what it should be. -/
def badArgument {α : Type} (call : NativeCall) (index : Nat) (expected : String) : Exec α :=
  let found := call.arguments[index]?.map Value.kind
  Exec.fail (.virtualMachine (.argumentKind call.name index expected found))

def int (call : NativeCall) (index : Nat) : Exec Int32 :=
  match call.arguments[index]? with
  | some (.int value) => return value
  | _ => call.badArgument index ValueKind.int.name

def long (call : NativeCall) (index : Nat) : Exec Int64 :=
  match call.arguments[index]? with
  | some (.long value) => return value
  | _ => call.badArgument index ValueKind.long.name

def float (call : NativeCall) (index : Nat) : Exec UInt32 :=
  match call.arguments[index]? with
  | some (.float bits) => return bits
  | _ => call.badArgument index ValueKind.float.name

def double (call : NativeCall) (index : Nat) : Exec UInt64 :=
  match call.arguments[index]? with
  | some (.double bits) => return bits
  | _ => call.badArgument index ValueKind.double.name

def reference (call : NativeCall) (index : Nat) : Exec (Option Ref) :=
  match call.arguments[index]? with
  | some (.reference target) => return target
  | _ => call.badArgument index ValueKind.reference.name

/-- The object that an instance method is called on. -/
def receiver (call : NativeCall) : Exec Ref := do
  match ← call.reference 0 with
  | some ref => return ref
  | none => Exec.fail (.virtualMachine (.noReceiver call.name))

/-- The text of a string argument; nothing for null. -/
def text (call : NativeCall) (index : Nat) : Exec (Option String) := do
  match ← call.reference index with
  | none => return none
  | some ref =>
    match (← Exec.object ref).text? with
    | some text => return some text
    | none => call.badArgument index ClassName.string

end NativeCall

namespace Exec

/-- Calls a method on an object, as the class of the object has it. -/
def invokeVirtual (ref : Ref) (name descriptor : String) (arguments : List Value) :
    Exec (Option Value) := do
  let c := (← object ref).type
  match c.findMethod? (methodKey name descriptor) with
  | none => fail (.noSuchMethod c.name (methodKey name descriptor))
  | some (owner, index) =>
    invoke owner index (Value.toSlots (.reference (some ref) :: arguments))

/-- Calls a static method that a class declares, after initializing the class. -/
def invokeStatic (className name descriptor : String) (arguments : List Value) :
    Exec (Option Value) := do
  let c ← load className
  ensureInitialized c
  let static := (c.declaredMethod? name descriptor).filter fun index =>
    (c.method? index).any (·.isStatic)
  match static with
  | none => fail (.noSuchMethod className (methodKey name descriptor))
  | some index => invoke c index (Value.toSlots arguments)

/-- The text that stands for a reference: that of a string, else what its `toString` method gives,
and `null` if there is none. -/
def textOf (reference : Option Ref) : Exec String := do
  match reference with
  | none => return "null"
  | some ref =>
    match (← object ref).text? with
    | some text => return text
    | none =>
      match ← invokeVirtual ref "toString" "()Ljava/lang/String;" [] with
      | some (.reference (some result)) => return (← object result).text?.getD "null"
      | _ => return "null"

/-- A new string as the result of a native method. -/
def returnText (text : String) : Exec (Option Value) := do
  return some (.reference (some (← newString text)))

end Exec

end JavaMachine
