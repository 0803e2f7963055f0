import JavaMachine.Frame
import JavaMachine.Machine.Initialization
import JavaMachine.Opcode

/-! # Executing one instruction: the state and its parts

An instruction works on the machine, on the frame of its method and on a cursor that reads its
operands from the code. -/

namespace JavaMachine

/-- What an instruction in execution works on. -/
structure StepState where
  machine : Machine
  frame : Frame
  /-- The next byte of the code to read. -/
  cursor : Nat
  deriving Inhabited

/-- A part of the execution of an instruction. -/
abbrev Step := ReaderT Services (EStateM Interruption StepState)

/-- How the method goes on after an instruction. -/
inductive Next where
  /-- At the cursor. -/
  | proceed
  /-- At the cursor, after a call. -/
  | call (owner : LinkedClass) (index : Nat) (arguments : List Value)
  /-- Not at all: the method ends. -/
  | finish (result : Option Value)
  deriving Inhabited

namespace Step

/-- An action of the machine as part of an instruction. -/
@[inline] def onMachine {α : Type} (action : Exec α) : Step α := fun services state =>
  let ⟨machine, frame, cursor⟩ := state
  match action services machine with
  | .ok result machine => .ok result ⟨machine, frame, cursor⟩
  | .error interruption machine => .error interruption ⟨machine, frame, cursor⟩

/-- An operation on the frame as part of an instruction. -/
@[inline] def onFrame {α : Type} (operation : FrameM α) : Step α := fun _ state =>
  let ⟨machine, frame, cursor⟩ := state
  match operation frame with
  | .ok result frame => .ok result ⟨machine, frame, cursor⟩
  | .error error frame => .error (.fatal error) ⟨machine, frame, cursor⟩

instance : MonadLift Exec Step := ⟨onMachine⟩

instance : MonadLift FrameM Step := ⟨onFrame⟩

/-- The frame of the method. -/
def frame : Step Frame := fun _ state => .ok state.frame state

/-- The next byte of the code to read. -/
def cursor : Step Nat := fun _ state => .ok state.cursor state

/-- Moves the cursor. -/
def seek (cursor : Nat) : Step Unit := fun _ state => .ok () { state with cursor }

/-- Ends with an error of the instruction. -/
def fault {α : Type} (fault : InstructionFault) : Step α := do
  let frame ← frame
  throw (.fatal (.virtualMachine (.instruction frame.site frame.pc fault)))

/-- Reads a byte of the code. -/
def readByte : Step UInt8 := do
  let cursor ← cursor
  match (← frame).code.bytes[cursor]? with
  | some byte =>
    seek (cursor + 1)
    return byte
  | none => fault (.codeEnds cursor)

/-- Reads two bytes, the higher one first. -/
def readShort : Step UInt16 := do
  let high ← readByte
  let low ← readByte
  return high.toUInt16 <<< 8 ||| low.toUInt16

/-- Reads four bytes, the highest one first. -/
def readInt : Step Int32 := do
  let high ← readShort
  let low ← readShort
  return (high.toUInt32 <<< 16 ||| low.toUInt32).toInt32

/-- Reads a signed byte. -/
def readSignedByte : Step Int32 := do
  return (← readByte).toInt8.toInt32

/-- Reads a signed number of two bytes. -/
def readSignedShort : Step Int32 := do
  return (← readShort).toInt16.toInt32

/-- The place that lies at an offset from the instruction; it must be in the code. -/
def targetOf (offset : Int32) : Step Nat := do
  let frame ← frame
  let target : Int := frame.pc + offset.toInt
  if 0 ≤ target ∧ target < frame.code.bytes.size then return target.toNat
  else fault (.branchTarget target)

/-- Goes on at an offset from the instruction. -/
def branch (offset : Int32) : Step Unit := do
  seek (← targetOf offset)

/-- Takes a reference that is not null from the stack. -/
def popObject : Step Ref := do
  match ← Frame.popReference with
  | some ref => return ref
  | none => Exec.throwNew ClassName.nullPointerException none

/-- The constant at an index in the pool of the method's class. -/
def constantAt (index : UInt16) : Step Constant := do
  let owner := (← frame).owner
  match owner.constant? index with
  | some constant => return constant
  | none => Exec.fail (.virtualMachine (.noConstant owner.name index))

/-- Ends because a constant is of another kind than the instruction needs. -/
def wrongConstant {α : Type} (expected : ConstantKind) (index : UInt16) (found : Constant) :
    Step α :=
  fault (.constantKind expected index (found.kind?.getD .utf8))

/-- What a constant of the method's class was linked to before. -/
def linkAt (index : UInt16) : Step (Option Linkage) := do
  let state ← Exec.classState (← frame).owner
  return state.links.lookup index

/-- Notes what a constant of the method's class is linked to. -/
def setLink (index : UInt16) (link : Linkage) : Step Unit := do
  let owner := (← frame).owner
  Exec.modifyClass owner fun state => { state with links := (index, link) :: state.links }

/-- The class with the name that a constant says, loaded and noted if this is its first use. -/
def classNamed (index : UInt16) (name : String) : Step LinkedClass := do
  match ← linkAt index with
  | some (.named c) => return c
  | _ =>
    let c ← Exec.load name
    setLink index (.named c)
    return c

/-- The class that a constant names. -/
def classAt (index : UInt16) : Step LinkedClass := do
  match ← constantAt index with
  | .classRef name => classNamed index name
  | other => wrongConstant .classRef index other

/-- Makes sure that a value is of the kind that a field or an array element holds. -/
def checkKind (op : Opcode) (type : FieldType) (value : Value) : Step Unit := do
  if value.kind ≠ .value type.kind then
    fault (.operandKind op.mnemonic type.kind value.kind)

end Step

end JavaMachine
