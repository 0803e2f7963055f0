import JavaMachine.Machine.Basic

/-! # Initialization of classes and throwables

A class is initialized before its static part or its instances are used: its superclass first, then
the fields with a constant value, then its static initializer. This happens once; a class whose
initialization failed can never be used. A throwable of the machine itself is an instance of its
class like any other, made after the class is initialized. -/

namespace JavaMachine

namespace Exec

/-- The value of a constant that a static field starts with. -/
def constantValue : FieldConstant → Exec Value
  | .int value => return .int value
  | .long value => return .long value
  | .float bits => return .float bits
  | .double bits => return .double bits
  | .string text => return .reference (some (← intern text))

/-- Gives the static fields of a class their constant values. -/
def assignConstants (c : LinkedClass) : List Field → Exec Unit
  | [] => return
  | field :: rest => do
    if let some constant := field.constant then
      setStatic c field.slot (← constantValue constant)
    assignConstants c rest

/-- Runs the static initializer of a class, if it has one. -/
def runInitializer (c : LinkedClass) : Exec Unit := do
  match c.declaredMethod? MemberName.staticInitializer "()V" with
  | none => return
  | some index =>
    let _ ← invoke c index []

/-- Notes how far the initialization of a class has come. -/
def setPhase (c : LinkedClass) (phase : InitPhase) : Exec Unit :=
  modifyClass c fun state => { state with phase }

/-- Carries out the initialization of a class; whatever interrupts it, it has failed. -/
def initializing (c : LinkedClass) (action : Exec Unit) : Exec Unit := do
  match (← classState c).phase with
  | .done | .running => return
  | .failed => fail (.classInitialization c.name)
  | .untouched =>
    setPhase c .running
    tryCatch action fun interruption => do
      setPhase c .failed
      throw interruption
    setPhase c .done

/-- Initializes a class unless that has been done or is being done. -/
def ensureInitialized : LinkedClass → Exec Unit
  | .mk info superclass interfaces element table =>
    let c := .mk info superclass interfaces element table
    initializing c do
      ofSuperclass superclass
      assignConstants c info.staticFields
      runInitializer c
where
  ofSuperclass : Option LinkedClass → Exec Unit
    | none => return
    | some superclass => ensureInitialized superclass

/-- A new throwable of a class, with a message if one is given. -/
def newThrowable (className : String) (detail : Option String) : Exec Ref := do
  let c ← load className
  ensureInitialized c
  let exception ← allocate (.ofClass c)
  if let some text := detail then
    match c.instanceField? MemberName.detailMessage with
    | none => fail (.noSuchField className MemberName.detailMessage)
    | some field =>
      let message ← newString text
      putField exception field.slot (.reference (some message))
  return exception

/-- Throws a new throwable of a class. -/
def throwNew {α : Type} (className : String) (detail : Option String) : Exec α := do
  throw (.thrown (← newThrowable className detail))

/-- Throws because an index is not one of an array or a string. -/
def throwIndex {α : Type} (className : String) (index : Int32) (length : Nat) : Exec α :=
  throwNew className (some s!"Index {index.toInt} out of bounds for length {length}")

end Exec

end JavaMachine
