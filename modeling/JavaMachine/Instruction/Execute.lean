import JavaMachine.Instruction.Call
import JavaMachine.Instruction.Control
import JavaMachine.Instruction.Object

/-! # The effect of each instruction -/

namespace JavaMachine

namespace Step

/-- The rest of an instruction that goes on at the cursor. -/
def proceeding (action : Step Unit) : Step Next := do
  action
  return .proceed

/-- A value pushed by an instruction that has nothing else to do. -/
def constant (value : Value) : Step Unit :=
  onFrame (Frame.push value)

/-- Executes an instruction whose opcode has been read. -/
def execute (op : Opcode) : Step Next :=
  match op with
  | .nop => proceeding (return)
  | .aconstNull => proceeding (constant .null)
  | .iconst number => proceeding (constant (.int (Int32.ofNat number.val - 1)))
  | .lconst number => proceeding (constant (.long (Int64.ofNat number.val)))
  | .fconst number => proceeding (constant (.float (Single.ofInt number.val)))
  | .dconst number => proceeding (constant (.double (Double.ofInt number.val)))
  | .bipush => proceeding do constant (.int (← readSignedByte))
  | .sipush => proceeding do constant (.int (← readSignedShort))
  | .ldc => proceeding do loadConstant (← readByte).toUInt16
  | .ldcWide => proceeding do loadConstant (← readShort)
  | .ldc2Wide => proceeding do loadWideConstant (← readShort)
  | .load kind => proceeding do load op kind (← readByte).toNat
  | .loadShort kind index => proceeding (load op kind index.val)
  | .arrayLoad kind => proceeding (loadElement op kind)
  | .store kind => proceeding do store op kind (← readByte).toNat
  | .storeShort kind index => proceeding (store op kind index.val)
  | .arrayStore kind => proceeding (storeElement op kind)
  | .pop => proceeding do let _ ← Frame.popSlot
  | .pop2 => proceeding do let _ ← Frame.popSlots 2
  | .dup two skip => proceeding (duplicate (if two then 2 else 1) skip.val)
  | .swap => proceeding swap
  | .arithmetic operation kind => proceeding (arithmetic operation kind)
  | .negate kind => proceeding (negate kind)
  | .shift operation kind => proceeding (shift operation kind)
  | .bitwise operation kind => proceeding (bitwise operation kind)
  | .iinc => proceeding do
    let index ← readByte
    increment index.toNat (← readSignedByte)
  | .convert source target => proceeding (convert source target)
  | .narrow kind => proceeding (narrow kind)
  | .lcmp => proceeding compareLongs
  | .fcmp unorderedGreater => proceeding (compareFloats unorderedGreater)
  | .dcmp unorderedGreater => proceeding (compareDoubles unorderedGreater)
  | .ifInt condition => proceeding (branchOnInt condition)
  | .ifInts condition => proceeding (branchOnInts condition)
  | .ifReferences equal => proceeding (branchOnReferences equal)
  | .ifNull null => proceeding (branchOnNull null)
  | .goto => proceeding (branchIf true)
  | .gotoWide => proceeding do branch (← readInt)
  | .jsr => proceeding do jump (← readSignedShort)
  | .jsrWide => proceeding do jump (← readInt)
  | .ret => proceeding do ret (← readByte).toNat
  | .tableswitch => proceeding tableSwitch
  | .lookupswitch => proceeding lookupSwitch
  | .wide => proceeding wide
  | .returnValue kind => returnValue kind
  | .returnVoid => return .finish none
  | .getstatic => proceeding getStatic
  | .putstatic => proceeding putStatic
  | .getfield => proceeding getField
  | .putfield => proceeding putField
  | .invokevirtual => invokeVirtual
  | .invokespecial => invokeSpecial
  | .invokestatic => invokeStatic
  | .invokeinterface => invokeInterface
  | .invokedynamic => invokeDynamic
  | .new => proceeding newObject
  | .newarray => proceeding newArray
  | .anewarray => proceeding newReferenceArray
  | .multianewarray => proceeding newNestedArray
  | .arraylength => proceeding arrayLength
  | .athrow => do throw (.thrown (← popObject))
  | .checkcast => proceeding checkCast
  | .instanceof => proceeding instanceOf
  | .monitorenter | .monitorexit => proceeding do let _ ← popObject

/-- Reads and executes the instruction at the cursor. -/
def instruction : Step Next := do
  let byte ← readByte
  match Opcode.ofByte? byte with
  | some op => execute op
  | none => fault (.unknownOpcode byte)

end Step

end JavaMachine
