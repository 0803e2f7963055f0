import JavaMachine.Instruction.Arithmetic
import JavaMachine.Instruction.Local

/-! # Instructions that transfer control -/

namespace JavaMachine

namespace Step

/-- Reads the offset of a branch and takes it if a condition holds. -/
def branchIf (condition : Bool) : Step Unit := do
  let offset ← readSignedShort
  if condition then branch offset

/-- Branches on the int on top of the stack, compared to zero. -/
def branchOnInt (condition : Condition) : Step Unit := do
  let value ← Frame.popInt
  branchIf (condition.holds value 0)

/-- Branches on the two ints on top of the stack. -/
def branchOnInts (condition : Condition) : Step Unit := do
  let b ← Frame.popInt
  let a ← Frame.popInt
  branchIf (condition.holds a b)

/-- Branches on whether the two references on top of the stack are the same. -/
def branchOnReferences (equal : Bool) : Step Unit := do
  let b ← Frame.popReference
  let a ← Frame.popReference
  branchIf ((a == b) == equal)

/-- Branches on whether the reference on top of the stack is null. -/
def branchOnNull (null : Bool) : Step Unit := do
  let ref ← Frame.popReference
  branchIf (ref.isNone == null)

/-- Calls a subroutine: the place behind the instruction is pushed. -/
def jump (offset : Int32) : Step Unit := do
  Frame.push (.returnAddress (← cursor))
  branch offset

/-- Returns from a subroutine to the address in a local variable. -/
def ret (index : Nat) : Step Unit := do
  match ← Frame.getLocal index with
  | .returnAddress address => seek address
  | other => fault (.notReturnAddress index other.kind)

/-- Moves the cursor to the operands of a switch, which start at a multiple of four. -/
def alignOperands : Step Unit := do
  seek (((← frame).pc + 4) / 4 * 4)

/-- Branches by a table of offsets for a range of ints. -/
def tableSwitch : Step Unit := do
  let index ← Frame.popInt
  alignOperands
  let default ← readInt
  let low ← readInt
  let high ← readInt
  if high < low then
    fault (.switchBounds low high)
  if index < low ∨ index > high then
    branch default
  else
    seek ((← cursor) + 4 * (index.toInt - low.toInt).toNat)
    branch (← readInt)

/-- The offset of a key among so many pairs of keys and offsets. -/
def findPair (key : Int32) : Nat → Step (Option Int32)
  | 0 => return none
  | pairs + 1 => do
    let candidate ← readInt
    let offset ← readInt
    if candidate = key then return some offset else findPair key pairs

/-- Branches by a list of ints and offsets. -/
def lookupSwitch : Step Unit := do
  let key ← Frame.popInt
  alignOperands
  let default ← readInt
  let pairs ← readInt
  if pairs < 0 then
    fault (.switchPairs pairs)
  let found ← findPair key pairs.toInt.toNat
  branch (found.getD default)

/-- Executes an instruction on locals with an index of two bytes. -/
def wide : Step Unit := do
  let byte ← readByte
  let index := (← readShort).toNat
  match Opcode.ofByte? byte with
  | some (.load kind) => load .wide kind index
  | some (.store kind) => store .wide kind index
  | some .iinc => increment index (← readSignedShort)
  | some .ret => ret index
  | _ => fault (.notWidenable (Opcode.mnemonicOfByte byte))

/-- Cuts a result to the type that the method declares. -/
def narrowResult (value : Value) : Step Value := do
  match (← frame).method.descriptor.returnType with
  | some type => return Value.narrow type value
  | none => return value

/-- Ends the method with the value on top of the stack. -/
def returnValue : ValueKind → Step Next
  | .int => do return .finish (some (← narrowResult (.int (← Frame.popInt))))
  | .long => do return .finish (some (.long (← Frame.popLong)))
  | .float => do return .finish (some (.float (← Frame.popFloat)))
  | .double => do return .finish (some (.double (← Frame.popDouble)))
  | .reference => do return .finish (some (.reference (← Frame.popReference)))

end Step

end JavaMachine
