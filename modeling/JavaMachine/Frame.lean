import JavaMachine.Class.Basic
import JavaMachine.Error

/-! # Frames

The activation of a method: its local variables, its operand stack and its place in the code. The
stack never holds more slots than the code asks for and the number of locals never changes. An
operation that fails says why; what it had moved before it failed stays moved. -/

namespace JavaMachine

/-- The activation of a method with code. The last slot of `stack` is its top. -/
structure Frame where
  owner : LinkedClass
  method : Method
  code : Code
  /-- The start of the current instruction. -/
  pc : Nat
  /-- Where to go on after a pending call. -/
  resumePc : Nat
  locals : Array Value
  stack : Array Value
  deriving Inhabited

/-- An operation on a frame. -/
abbrev FrameM := EStateM Error Frame

namespace Frame

/-- The frame of a call of a method of a class, by its index. The arguments are in slots, the
receiver first. -/
def enter (owner : LinkedClass) (methodIndex : Nat) (arguments : List Value) :
    Except Error Frame :=
  match owner.method? methodIndex with
  | none => .error (.virtualMachine (.noMethod owner.name methodIndex))
  | some method =>
    let name := owner.name ++ "." ++ method.key
    match method.code with
    | none => .error (.virtualMachine (.noCode name))
    | some code =>
      if arguments.length > code.maxLocals then
        .error (.virtualMachine (.tooManyArguments name arguments.length code.maxLocals))
      else
        let unused := Array.replicate (code.maxLocals - arguments.length) Value.top
        .ok {
          owner
          method
          code
          pc := 0
          resumePc := 0
          locals := arguments.toArray ++ unused
          stack := #[] }

/-- How messages name the frame. -/
def site (frame : Frame) : Site :=
  ⟨frame.owner.name, frame.method.name⟩

/-- The number of slots on the operand stack. -/
def depth (frame : Frame) : Nat :=
  frame.stack.size

/-- Fails with a fault of the frame. -/
def fail {α : Type} (fault : Frame → MachineFault) : FrameM α := do
  throw (.virtualMachine (fault (← get)))

/-- Fails because a slot holds another kind of value than expected. -/
def mismatch {α : Type} (expected : Option ValueKind) (found : Value) : FrameM α :=
  fail fun frame => .typeMismatch frame.site frame.pc expected found.kind

/-- Puts one slot on the stack. -/
def pushSlot (value : Value) : FrameM Unit := do
  if (← get).stack.size ≥ (← get).code.maxStack then
    fail fun frame => .stackOverflow frame.site frame.code.maxStack
  else
    modify fun frame => { frame with stack := frame.stack.push value }

/-- Puts a value on the stack, with its filler if it is wide. -/
def push (value : Value) : FrameM Unit := do
  pushSlot value
  if value.isWide then pushSlot .top

/-- Takes one slot from the stack. -/
def popSlot : FrameM Value := do
  match (← get).stack.back? with
  | none => fail fun frame => .stackUnderflow frame.site
  | some value =>
    modify fun frame => { frame with stack := frame.stack.pop }
    return value

/-- Takes one value from the stack, with its filler if it is wide. -/
def pop : FrameM Value := do
  match ← popSlot with
  | .top =>
    let value ← popSlot
    if value.isWide then return value else mismatch none value
  | value => return value

/-- Takes a number of slots from the stack; the last one of the result was the top. -/
def popSlots (count : Nat) : FrameM (List Value) := do
  let size := (← get).stack.size
  if count > size then
    fail fun frame => .missingSlots frame.site count size
  else
    let slots := ((← get).stack.extract (size - count) size).toList
    modify fun frame => { frame with stack := frame.stack.shrink (size - count) }
    return slots

/-- Takes the filler of a wide value from the stack. -/
def popFiller : FrameM Unit := do
  match ← popSlot with
  | .top => return
  | other => mismatch none other

def popInt : FrameM Int32 := do
  match ← popSlot with
  | .int value => return value
  | other => mismatch (some .int) other

def popLong : FrameM Int64 := do
  popFiller
  match ← popSlot with
  | .long value => return value
  | other => mismatch (some .long) other

def popFloat : FrameM UInt32 := do
  match ← popSlot with
  | .float bits => return bits
  | other => mismatch (some .float) other

def popDouble : FrameM UInt64 := do
  popFiller
  match ← popSlot with
  | .double bits => return bits
  | other => mismatch (some .double) other

def popReference : FrameM (Option Ref) := do
  match ← popSlot with
  | .reference target => return target
  | other => mismatch (some .reference) other

/-- The slot of a local variable. -/
def getLocal (index : Nat) : FrameM Value := do
  match (← get).locals[index]? with
  | some value => return value
  | none => fail fun frame => .localOutOfRange frame.site index frame.locals.size

/-- Changes a local variable; a wide value takes the following one too. -/
def setLocal (index : Nat) (value : Value) : FrameM Unit := do
  let last := if value.isWide then index + 1 else index
  if last ≥ (← get).locals.size then
    fail fun frame => .localOutOfRange frame.site last frame.locals.size
  else
    if value.isWide then
      modify fun frame => { frame with locals := frame.locals.setIfInBounds (index + 1) .top }
    modify fun frame => { frame with locals := frame.locals.setIfInBounds index value }

/-- Goes on after a call that has ended, with its result if it has one. -/
def resume (result : Option Value) : FrameM Unit := do
  if let some value := result then push value
  modify fun frame => { frame with pc := frame.resumePc }

/-- Goes on at a handler, with what was thrown as the only value on the stack. -/
def catchAt (target : Nat) (exception : Ref) : FrameM Unit := do
  modify fun frame => { frame with stack := #[] }
  push (.reference (some exception))
  modify fun frame => { frame with pc := target }

end Frame

end JavaMachine
