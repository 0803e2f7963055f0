import JavaMachine.Instruction.Basic
import JavaMachine.Number.FloatingPoint

/-! # Arithmetic instructions

Integers wrap around, division and remainder go toward zero and have no result for a zero divisor,
and shift distances count modulo the width. -/

namespace JavaMachine

/-! ## Integers -/

namespace ArithmeticOp

/-- The operation on ints; there is no result for a zero divisor. -/
def onInts (op : ArithmeticOp) (a b : Int32) : Option Int32 :=
  match op with
  | add => some (a + b)
  | sub => some (a - b)
  | mul => some (a * b)
  | div => if b = 0 then none else some (a / b)
  | rem => if b = 0 then none else some (a % b)

/-- The operation on longs; there is no result for a zero divisor. -/
def onLongs (op : ArithmeticOp) (a b : Int64) : Option Int64 :=
  match op with
  | add => some (a + b)
  | sub => some (a - b)
  | mul => some (a * b)
  | div => if b = 0 then none else some (a / b)
  | rem => if b = 0 then none else some (a % b)

/-- The operation on floats. -/
def onFloats : ArithmeticOp → UInt32 → UInt32 → UInt32
  | add => Single.add
  | sub => Single.sub
  | mul => Single.mul
  | div => Single.div
  | rem => Single.rem

/-- The operation on doubles. -/
def onDoubles : ArithmeticOp → UInt64 → UInt64 → UInt64
  | add => Double.add
  | sub => Double.sub
  | mul => Double.mul
  | div => Double.div
  | rem => Double.rem

end ArithmeticOp

namespace ShiftOp

/-- The shift of an int. -/
def onInts (op : ShiftOp) (value distance : Int32) : Int32 :=
  match op with
  | left => value <<< distance
  | right => value >>> distance
  | unsignedRight => (value.toUInt32 >>> distance.toUInt32).toInt32

/-- The shift of a long. -/
def onLongs (op : ShiftOp) (value : Int64) (distance : Int32) : Int64 :=
  match op with
  | left => value <<< distance.toInt64
  | right => value >>> distance.toInt64
  | unsignedRight => (value.toUInt64 >>> distance.toInt64.toUInt64).toInt64

end ShiftOp

namespace BitwiseOp

/-- The operation on ints. -/
def onInts (op : BitwiseOp) (a b : Int32) : Int32 :=
  match op with
  | and => a &&& b
  | or => a ||| b
  | xor => a ^^^ b

/-- The operation on longs. -/
def onLongs (op : BitwiseOp) (a b : Int64) : Int64 :=
  match op with
  | and => a &&& b
  | or => a ||| b
  | xor => a ^^^ b

end BitwiseOp

namespace Condition

/-- Whether the condition holds between two ints. -/
def holds (condition : Condition) (a b : Int32) : Bool :=
  match condition with
  | eq => a == b
  | ne => a != b
  | lt => a < b
  | ge => a ≥ b
  | gt => a > b
  | le => a ≤ b

end Condition

namespace NarrowKind

/-- Cuts an int to the kind. -/
def cut : NarrowKind → Int32 → Int32
  | byte => Value.signedByte
  | char => Value.unsignedShort
  | short => Value.signedShort

end NarrowKind

/-- An order as an int: below, at or above zero. -/
def orderingInt : Ordering → Int32
  | .lt => -1
  | .eq => 0
  | .gt => 1

namespace Step

/-- Pushes the result of a division, or throws if there is none. -/
def pushQuotient (result : Option Value) : Step Unit := do
  match result with
  | some value => Frame.push value
  | none => Exec.throwNew ClassName.arithmeticException (some "/ by zero")

/-- Replaces the two numbers on top of the stack by the result of an operation. -/
def arithmetic (op : ArithmeticOp) : NumberKind → Step Unit
  | .int => do
    let b ← Frame.popInt
    let a ← Frame.popInt
    pushQuotient ((op.onInts a b).map .int)
  | .long => do
    let b ← Frame.popLong
    let a ← Frame.popLong
    pushQuotient ((op.onLongs a b).map .long)
  | .float => do
    let b ← Frame.popFloat
    let a ← Frame.popFloat
    Frame.push (.float (op.onFloats a b))
  | .double => do
    let b ← Frame.popDouble
    let a ← Frame.popDouble
    Frame.push (.double (op.onDoubles a b))

/-- Changes the sign of the number on top of the stack. -/
def negate : NumberKind → Step Unit
  | .int => do Frame.push (.int (-(← Frame.popInt)))
  | .long => do Frame.push (.long (-(← Frame.popLong)))
  | .float => do Frame.push (.float (Single.neg (← Frame.popFloat)))
  | .double => do Frame.push (.double (Double.neg (← Frame.popDouble)))

/-- Shifts the integer below the distance on top of the stack. -/
def shift (op : ShiftOp) : IntegerKind → Step Unit
  | .int => do
    let distance ← Frame.popInt
    let value ← Frame.popInt
    Frame.push (.int (op.onInts value distance))
  | .long => do
    let distance ← Frame.popInt
    let value ← Frame.popLong
    Frame.push (.long (op.onLongs value distance))

/-- Combines the bits of the two integers on top of the stack. -/
def bitwise (op : BitwiseOp) : IntegerKind → Step Unit
  | .int => do
    let b ← Frame.popInt
    let a ← Frame.popInt
    Frame.push (.int (op.onInts a b))
  | .long => do
    let b ← Frame.popLong
    let a ← Frame.popLong
    Frame.push (.long (op.onLongs a b))

/-- An int as a number of another kind. -/
def ofInt (value : Int32) : NumberKind → Value
  | .int => .int value
  | .long => .long value.toInt64
  | .float => .float (Single.ofInt value.toInt)
  | .double => .double (Double.ofInt value.toInt)

/-- A long as a number of another kind. -/
def ofLong (value : Int64) : NumberKind → Value
  | .int => .int value.toInt32
  | .long => .long value
  | .float => .float (Single.ofInt value.toInt)
  | .double => .double (Double.ofInt value.toInt)

/-- A float as a number of another kind. -/
def ofFloat (bits : UInt32) : NumberKind → Value
  | .int => .int (Single.toInt32 bits)
  | .long => .long (Single.toInt64 bits)
  | .float => .float bits
  | .double => .double (Double.ofSingle bits)

/-- A double as a number of another kind. -/
def ofDouble (bits : UInt64) : NumberKind → Value
  | .int => .int (Double.toInt32 bits)
  | .long => .long (Double.toInt64 bits)
  | .float => .float (Double.toSingle bits)
  | .double => .double bits

/-- Converts the number on top of the stack. -/
def convert (source target : NumberKind) : Step Unit := do
  match source with
  | .int => Frame.push (ofInt (← Frame.popInt) target)
  | .long => Frame.push (ofLong (← Frame.popLong) target)
  | .float => Frame.push (ofFloat (← Frame.popFloat) target)
  | .double => Frame.push (ofDouble (← Frame.popDouble) target)

/-- Cuts the int on top of the stack to a narrower kind. -/
def narrow (kind : NarrowKind) : Step Unit := do
  Frame.push (.int (kind.cut (← Frame.popInt)))

/-- Compares the two longs on top of the stack. -/
def compareLongs : Step Unit := do
  let b ← Frame.popLong
  let a ← Frame.popLong
  Frame.push (.int (orderingInt (compare a b)))

/-- An order as an int, with a choice for numbers that have none. -/
def partialOrderingInt (unorderedGreater : Bool) : Option Ordering → Int32
  | some ordering => orderingInt ordering
  | none => if unorderedGreater then 1 else -1

/-- Compares the two floats on top of the stack. -/
def compareFloats (unorderedGreater : Bool) : Step Unit := do
  let b ← Frame.popFloat
  let a ← Frame.popFloat
  Frame.push (.int (partialOrderingInt unorderedGreater (Single.compare a b)))

/-- Compares the two doubles on top of the stack. -/
def compareDoubles (unorderedGreater : Bool) : Step Unit := do
  let b ← Frame.popDouble
  let a ← Frame.popDouble
  Frame.push (.int (partialOrderingInt unorderedGreater (Double.compare a b)))

end Step

end JavaMachine
