import JavaMachine.Instruction.Basic

/-! # Instructions on locals, constants and stack slots -/

namespace JavaMachine

namespace Step

/-- Pushes a local variable, which must hold a value of the kind. -/
def load (op : Opcode) (kind : ValueKind) (index : Nat) : Step Unit := do
  let value ← Frame.getLocal index
  if value.kind ≠ .value kind then
    fault (.localKind op.mnemonic kind index value.kind)
  Frame.push value

/-- Whether a local variable of a kind takes a value. Return addresses are stored like
references. -/
def storable (kind : ValueKind) (value : Value) : Bool :=
  value.kind = .value kind || (kind = .reference && value.kind = .returnAddress)

/-- Pops a value of the kind into a local variable. -/
def store (op : Opcode) (kind : ValueKind) (index : Nat) : Step Unit := do
  let value ← Frame.pop
  if !storable kind value then
    fault (.operandKind op.mnemonic kind value.kind)
  Frame.setLocal index value

/-- Adds to an int local variable. -/
def increment (index : Nat) (delta : Int32) : Step Unit := do
  match ← Frame.getLocal index with
  | .int value => Frame.setLocal index (.int (value + delta))
  | other => fault (.incrementKind index other.kind)

/-- Copies the top `count` slots below `skip` further slots. -/
def duplicate (count skip : Nat) : Step Unit := do
  let top ← Frame.popSlots count
  let under ← Frame.popSlots skip
  (top ++ under ++ top).forM fun slot => (Frame.pushSlot slot : FrameM Unit)

/-- Swaps the two top slots. -/
def swap : Step Unit := do
  let first ← Frame.popSlot
  let second ← Frame.popSlot
  Frame.pushSlot first
  Frame.pushSlot second

/-- Pushes a constant of one slot. -/
def loadConstant (index : UInt16) : Step Unit := do
  match ← constantAt index with
  | .integer value => Frame.push (.int value)
  | .float bits => Frame.push (.float bits)
  | .string text =>
    let ref ← Exec.intern text
    Frame.push (.reference (some ref))
  | other => fault (.ldcConstant (other.kind?.getD .utf8))

/-- Pushes a constant of two slots. -/
def loadWideConstant (index : UInt16) : Step Unit := do
  match ← constantAt index with
  | .long value => Frame.push (.long value)
  | .double bits => Frame.push (.double bits)
  | other => fault (.ldc2Constant (other.kind?.getD .utf8))

end Step

end JavaMachine
