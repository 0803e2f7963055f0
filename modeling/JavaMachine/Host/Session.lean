import JavaMachine.Builtin
import JavaMachine.Host.Member
import JavaMachine.Machine.Execution

/-! # Sessions

A machine together with what it was set up with, as a host uses it: actions are performed one after
the other, and each gives a result or an error. -/

namespace JavaMachine

/-- What a host sets a machine up with. The built-in classes and native methods are always there;
native methods of the host replace them. -/
structure Options where
  /-- Where classes come from, after the built-in ones. -/
  sources : List ClassSource := []
  /-- Native methods; of equal keys the first one counts. -/
  natives : NativeTable := []
  limits : Limits := {}
  /-- The steps that one action may take. -/
  fuel : Nat

/-- A machine and what it was set up with. -/
structure Session where
  setup : Setup
  fuel : Nat
  machine : Machine

namespace Session

/-- A new machine. It knows the class of strings from the start. -/
def start (options : Options) : Except Error Session := do
  let sources := (← Builtin.source) :: options.sources
  match Loader.load sources ClassName.string [] with
  | .error error _ => throw error
  | .ok stringClass loaded =>
    let setup : Setup := {
      sources
      limits := options.limits
      stringClass
      natives := options.natives ++ Native.table }
    return { setup, fuel := options.fuel, machine := { loaded } }

/-- The text of the message of a throwable. -/
def detailOf (heap : Heap) (exception : Ref) : Option String := do
  let object := heap.get exception
  let field ← object.type.instanceField? MemberName.detailMessage
  match object.field? field.slot with
  | some (.reference (some message)) => (heap.get message).text?
  | _ => none

/-- The error that an interruption is to the host. -/
def report (heap : Heap) : Interruption → Error
  | .thrown exception =>
    .thrown (heap.get exception).className (detailOf heap exception) exception
  | .fatal error => error
  | .outOfFuel => .virtualMachine .stepLimit

/-- Performs an action that starts with no calls in progress. -/
def perform {α : Type} (action : Exec α) (session : Session) : Except Error α × Session :=
  let ⟨setup, fuel, machine⟩ := session
  match action (setup.services fuel) { machine with depth := 0 } with
  | .ok result machine => (.ok result, ⟨setup, fuel, machine⟩)
  | .error interruption machine =>
    (.error (report machine.heap interruption), ⟨setup, fuel, machine⟩)

/-- The class that a host names; dots in the name stand for slashes. -/
def load (name : String) : Exec LinkedClass :=
  Exec.load (ClassName.slashed name)

end Session

end JavaMachine
