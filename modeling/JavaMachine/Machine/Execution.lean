import JavaMachine.Class.Subtype
import JavaMachine.Instruction.Execute
import JavaMachine.Native.Basic

/-! # Execution

A call of a method with code runs a chain of frames: the innermost one executes its instructions, a
call adds a frame in front and a return takes it away. What is thrown goes to the innermost frame
with a handler for it. Native methods, and whatever they call, run as calls of their own. The fuel
bounds the number of instructions. -/

namespace JavaMachine

/-- The frames of a call, the innermost first. -/
structure Chain where
  frame : Frame
  callers : List Frame
  deriving Inhabited

namespace Execution

open Exec (fail)

/-- An operation on a frame, as an action that ends with the frame. -/
def onFrame (operation : FrameM Unit) (frame : Frame) : Exec Frame :=
  match operation frame with
  | .ok _ frame => return frame
  | .error error _ => fail error

/-- Counts a call that begins. -/
def enter : Exec Unit := do
  let limit := (← read).limits.callDepth
  if (← get).depth ≥ limit then
    fail (.virtualMachine (.callDepth limit))
  modify fun machine => { machine with depth := machine.depth + 1 }

/-- Counts a call that ends. -/
def leave : Exec Unit :=
  modify fun machine => { machine with depth := machine.depth - 1 }

/-- The first of some handlers that handles what a class of throwables throws at an offset. -/
def findHandler (pc : Nat) (thrown : LinkedClass) : List Handler → Exec (Option Nat)
  | [] => return none
  | handler :: rest => do
    if !handler.covers pc then
      findHandler pc thrown rest
    else
      match handler.catchType with
      | none => return some handler.target
      | some name =>
        let caught ← Exec.load name
        if thrown.isAssignableTo caught then return some handler.target
        else findHandler pc thrown rest

/-- Goes on in the innermost frame that handles a throwable; the frames inside it end. If there is
none, the throwable is thrown out of the chain. -/
def unwind (exception : Ref) (frame : Frame) (callers : List Frame) : Exec Chain := do
  let thrown := (← Exec.object exception).type
  match ← findHandler frame.pc thrown frame.code.handlers with
  | some target => return ⟨← onFrame (Frame.catchAt target exception) frame, callers⟩
  | none =>
    leave
    match callers with
    | [] => throw (.thrown exception)
    | caller :: rest => unwind exception caller rest

/-- How a chain goes on after an instruction. -/
inductive Progress where
  | running (chain : Chain)
  | finished (result : Option Value)
  deriving Inhabited

/-- Calls a native or abstract method from a frame, which then goes on or handles what was
thrown. -/
def callBodiless (owner : LinkedClass) (index : Nat) (arguments : List Value) (frame : Frame)
    (callers : List Frame) : Exec Chain := fun services machine =>
  match services.invoke owner index arguments machine with
  | .ok result machine =>
    (do return ⟨← onFrame (Frame.resume result) frame, callers⟩ : Exec Chain) services machine
  | .error (.thrown exception) machine => unwind exception frame callers services machine
  | .error interruption machine => .error interruption machine

/-- Calls a method from a frame. -/
def call (owner : LinkedClass) (index : Nat) (arguments : List Value) (frame : Frame)
    (callers : List Frame) : Exec Chain := do
  match owner.method? index with
  | none => fail (.virtualMachine (.noMethod owner.name index))
  | some method =>
    if method.isBodiless then
      callBodiless owner index arguments frame callers
    else
      enter
      let callee ← Exec.ofExcept (Frame.enter owner index arguments)
      return ⟨callee, frame :: callers⟩

/-- Ends the innermost frame with a result, which its caller takes. -/
def finish (result : Option Value) (callers : List Frame) : Exec Progress := do
  leave
  match callers with
  | [] => return .finished result
  | caller :: rest => return .running ⟨← onFrame (Frame.resume result) caller, rest⟩

/-- Executes one instruction of the innermost frame. -/
def advance (chain : Chain) : Exec Progress := fun services machine =>
  let ⟨frame, callers⟩ := chain
  let start := frame.pc
  match Step.instruction services ⟨machine, frame, start⟩ with
  | .ok next ⟨machine, frame, cursor⟩ =>
    match next with
    | .proceed => .ok (.running ⟨{ frame with pc := cursor }, callers⟩) machine
    | .call owner index arguments =>
      (do return .running (← call owner index arguments { frame with resumePc := cursor } callers)
        : Exec Progress) services machine
    | .finish result => finish result callers services machine
  | .error (.thrown exception) ⟨machine, frame, _⟩ =>
    (do return .running (← unwind exception frame callers) : Exec Progress) services machine
  | .error interruption ⟨machine, _, _⟩ => .error interruption machine

/-- Runs an action and, however it ends, settles the machine after it. -/
def settling {α : Type} (action : Exec α) (settle : Machine → Machine) : Exec α :=
  fun services machine =>
    match action services machine with
    | .ok result machine => .ok result (settle machine)
    | .error interruption machine => .error interruption (settle machine)

/-- Runs a native method, which counts as a call. -/
def runNative (natives : NativeTable) (owner : LinkedClass) (method : Method)
    (arguments : List Value) : Exec (Option Value) := do
  enter
  settling
    (match natives.lookup ⟨owner.name, method.name, method.descriptorText⟩ with
    | none => fail (.unsatisfiedLink owner.name method.key)
    | some function => function ⟨owner, method, Value.ofSlots arguments⟩)
    fun machine => { machine with depth := machine.depth - 1 }

/-- Runs a method with code. After it, as many calls are in progress as before. -/
def runCode (run : Chain → Exec (Option Value)) (owner : LinkedClass) (index : Nat)
    (arguments : List Value) : Exec (Option Value) := do
  let frame ← Exec.ofExcept (Frame.enter owner index arguments)
  let depth := (← get).depth
  settling
    (do enter; run ⟨frame, []⟩)
    fun machine => { machine with depth }

/-- Calls a method, given a way of running a chain. -/
def invoke (natives : NativeTable) (run : Chain → Exec (Option Value)) (owner : LinkedClass)
    (index : Nat) (arguments : List Value) : Exec (Option Value) := do
  match owner.method? index with
  | none => fail (.virtualMachine (.noMethod owner.name index))
  | some method =>
    if method.isAbstract then
      fail (.abstractMethod owner.name method.key)
    else if method.isNative then
      runNative natives owner method arguments
    else
      runCode run owner index arguments

/-- Runs a chain to its end, for at most `fuel` instructions. -/
def run : (fuel : Nat) → Chain → Exec (Option Value)
  | 0, _ => throw .outOfFuel
  | fuel + 1, chain => do
    match ← advance chain with
    | .running chain => run fuel chain
    | .finished result => return result

end Execution

/-- What a machine is set up with. -/
structure Setup where
  sources : List ClassSource
  limits : Limits
  stringClass : LinkedClass
  natives : NativeTable

namespace Setup

/-- The services of a machine, given a way of calling a method. -/
def withInvoker (setup : Setup) (invoke : Invoker) : Services where
  sources := setup.sources
  limits := setup.limits
  stringClass := setup.stringClass
  invoke

/-- The services of a machine that runs at most `fuel` calls inside one another, outside of chains,
and at most `fuel` instructions in each. -/
def services (setup : Setup) : (fuel : Nat) → Services
  | 0 => setup.withInvoker fun _ _ _ => throw .outOfFuel
  | fuel + 1 => setup.withInvoker fun owner index arguments machine =>
    Execution.invoke setup.natives (Execution.run fuel) owner index arguments
      (setup.services fuel) machine

end Setup

end JavaMachine
