import JavaMachine.Loader
import JavaMachine.Machine.Heap

/-! # The machine

The state that changes while code runs, what is fixed while it does, and the actions on that state
which every part of the machine shares. An action ends with a result or is interrupted: by a
throwable, which code can catch, or by an error, which it cannot. The state survives both. -/

namespace JavaMachine

/-- How far the initialization of a class has come. -/
inductive InitPhase where
  | untouched
  | running
  | done
  | failed
  deriving DecidableEq, Inhabited

/-- How far a class has come when it is loaded. Array classes, which have names that start with a
bracket, need no initialization. -/
def InitPhase.initial (name : String) : InitPhase :=
  if name.startsWith "[" then .done else .untouched

/-- What a constant of a class was found to stand for when it was first used. -/
inductive Linkage where
  /-- The class that it names. A member of it is yet to be found if the constant refers to one. -/
  | named (c : LinkedClass)
  | staticField (owner : LinkedClass) (slot : Nat)
  | instanceField (slot : Nat)
  | method (owner : LinkedClass) (index : Nat)
  deriving Inhabited

/-- The part of a class that changes. -/
structure ClassState where
  phase : InitPhase
  statics : Array Value
  /-- The links of the constants used so far, by index. -/
  links : List (UInt16 × Linkage)
  deriving Inhabited

namespace ClassState

/-- How a class starts: static fields are zero, and array classes need no initialization. -/
def initial (c : LinkedClass) : ClassState where
  phase := .initial c.name
  statics := (c.staticFields.map fun field => .zero field.type).toArray
  links := []

end ClassState

/-- The state of a machine. -/
structure Machine where
  loaded : LoadedClasses := []
  /-- The states of the classes touched so far. -/
  classes : List (String × ClassState) := []
  heap : Heap := {}
  /-- The strings that stand for their text. -/
  interned : List (String × Ref) := []
  /-- What was written to standard output. -/
  output : String := ""
  /-- What was written to standard error. -/
  errors : String := ""
  /-- The calls in progress. -/
  depth : Nat := 0
  /-- The time in nanoseconds; it passes when it is read. -/
  clock : Nat := 0
  deriving Inhabited

/-- The bounds within which code runs. -/
structure Limits where
  /-- Calls in progress at one time, those of native methods included. -/
  callDepth : Nat := 1024
  /-- Elements that one instruction may allocate. -/
  arrayLength : Nat := 1 <<< 26
  deriving DecidableEq, Inhabited

/-- Why an action ended without a result. -/
inductive Interruption where
  | thrown (exception : Ref)
  | fatal (error : Error)
  /-- The number of steps that were allowed is used up. -/
  | outOfFuel
  deriving DecidableEq, Inhabited

/-- A call of a method of a class, by its index; the arguments are in slots, the receiver first. -/
abbrev Invoker :=
  LinkedClass → Nat → List Value → EStateM Interruption Machine (Option Value)

/-- What stays fixed while code runs. -/
structure Services where
  sources : List ClassSource
  limits : Limits
  stringClass : LinkedClass
  invoke : Invoker

/-- An action of a running machine. -/
abbrev Exec := ReaderT Services (EStateM Interruption Machine)

namespace Exec

/-- Ends with an error. -/
def fail {α : Type} (error : Error) : Exec α :=
  throw (.fatal error)

/-- A result that needs no machine. -/
def ofExcept {α : Type} : Except Error α → Exec α
  | .ok value => pure value
  | .error error => fail error

/-! ## Classes -/

/-- The class with a name, loaded if need be. -/
def load (name : String) : Exec LinkedClass := fun services machine =>
  match Loader.load services.sources name machine.loaded with
  | .ok c loaded => .ok c { machine with loaded }
  | .error error loaded => .error (.fatal error) { machine with loaded }

/-- The class of arrays with elements of a type. -/
def loadArray (component : FieldType) : Exec LinkedClass :=
  load (FieldType.array component).descriptor

/-- The state of a class. -/
def classState (c : LinkedClass) : Exec ClassState := do
  return ((← get).classes.lookup c.name).getD (.initial c)

/-- Replaces the value of a key in a list of pairs, and adds the key if it is not there. -/
def alter {α : Type} (key : String) (absent : Unit → α) (f : α → α) :
    List (String × α) → List (String × α)
  | [] => [(key, f (absent ()))]
  | (first, value) :: rest =>
    if first == key then (first, f value) :: rest
    else (first, value) :: alter key absent f rest

/-- Changes the state of a class. -/
def modifyClass (c : LinkedClass) (f : ClassState → ClassState) : Exec Unit :=
  modify fun machine =>
    { machine with classes := alter c.name (fun _ => .initial c) f machine.classes }

/-- The error of a static slot that a class does not have. -/
def noStatic {α : Type} (c : LinkedClass) (slot : Nat) : Exec α :=
  fail (.noSuchField c.name s!"static #{slot}")

/-- The content of a static slot. -/
def getStatic (c : LinkedClass) (slot : Nat) : Exec Value := do
  match (← classState c).statics[slot]? with
  | some value => return value
  | none => noStatic c slot

/-- Changes a static slot. -/
def setStatic (c : LinkedClass) (slot : Nat) (value : Value) : Exec Unit := do
  if slot < (← classState c).statics.size then
    modifyClass c fun state => { state with statics := state.statics.setIfInBounds slot value }
  else noStatic c slot

/-! ## Objects -/

/-- The object of a reference. -/
def object (ref : Ref) : Exec HeapObject := do
  return (← get).heap.get ref

/-- Puts an object on the heap. -/
def allocate (object : HeapObject) : Exec Ref :=
  modifyGet fun machine =>
    let (ref, heap) := machine.heap.add object
    (ref, { machine with heap })

/-- A new array of an array class with given elements. -/
def allocateElements (c : LinkedClass) (elements : Array Value) : Exec Ref :=
  match c.component with
  | none => fail (.virtualMachine (.notArrayClass c.name))
  | some component => allocate (.ofElements c component elements)

/-- A new array of an array class with zeros as elements. -/
def allocateZeros (c : LinkedClass) (length : Nat) : Exec Ref :=
  match c.component with
  | none => fail (.virtualMachine (.notArrayClass c.name))
  | some component =>
    allocate (.ofElements c component (Array.replicate length (.zero component)))

/-- The error of a slot that an object does not have. -/
def noField {α : Type} (object : HeapObject) (slot : Nat) : Exec α :=
  fail (.noSuchField object.className s!"#{slot}")

/-- The content of a field slot. -/
def getField (ref : Ref) (slot : Nat) : Exec Value := do
  let object ← object ref
  match object.field? slot with
  | some value => return value
  | none => noField object slot

/-- Changes a slot of an object that has it. -/
def setSlot (ref : Ref) (slot : Nat) (value : Value) : Exec Unit :=
  modify fun machine => { machine with heap := machine.heap.set ref slot value }

/-- Changes a field slot. -/
def putField (ref : Ref) (slot : Nat) (value : Value) : Exec Unit := do
  if ((← get).heap.get ref).field? slot |>.isSome then setSlot ref slot value
  else noField (← object ref) slot

/-! ## Strings -/

/-- A new string. -/
def newString (text : String) : Exec Ref := do
  allocate ⟨(← read).stringClass, .text text⟩

/-- The one string that stands for a text. -/
def intern (text : String) : Exec Ref := do
  match (← get).interned.lookup text with
  | some ref => return ref
  | none =>
    let ref ← newString text
    modify fun machine => { machine with interned := (text, ref) :: machine.interned }
    return ref

/-! ## Calls and output -/

/-- Calls a method. -/
def invoke (owner : LinkedClass) (index : Nat) (arguments : List Value) :
    Exec (Option Value) := fun services machine =>
  services.invoke owner index arguments machine

/-- Writes to standard output or standard error. -/
def print (toErrors : Bool) (text : String) : Exec Unit :=
  modify fun machine =>
    if toErrors then { machine with errors := machine.errors ++ text }
    else { machine with output := machine.output ++ text }

end Exec

end JavaMachine
