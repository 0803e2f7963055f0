import JavaMachine.Descriptor
import JavaMachine.Opcode

/-! # Slot values

What a local variable, a stack slot, a field or an array element holds. A long or a double on the
stack or among the locals is followed by a filler slot, `top`. Floating-point values are bit
patterns, so that equality of values is equality of bits. -/

namespace JavaMachine

/-- A reference to an object: its position in the heap. -/
abbrev Ref := Nat

/-- What a slot can hold, by kind. -/
inductive SlotKind where
  | value (kind : ValueKind)
  | returnAddress
  | top
  deriving DecidableEq, Inhabited

namespace SlotKind

/-- The name of the kind in messages. -/
def name : SlotKind → String
  | value kind => kind.name
  | returnAddress => "returnAddress"
  | top => "top"

end SlotKind

/-- The content of one slot. -/
inductive Value where
  | int (value : Int32)
  | long (value : Int64)
  | float (bits : UInt32)
  | double (bits : UInt64)
  | reference (target : Option Ref)
  | returnAddress (pc : Nat)
  | top
  deriving DecidableEq, Inhabited

namespace Value

/-- The null reference. -/
def null : Value := reference none

/-- The kind of a value. -/
def kind : Value → SlotKind
  | int _ => .value .int
  | long _ => .value .long
  | float _ => .value .float
  | double _ => .value .double
  | reference _ => .value .reference
  | returnAddress _ => .returnAddress
  | top => .top

/-- Longs and doubles are followed by a filler. -/
def isWide : Value → Bool
  | long _ | double _ => true
  | _ => false

/-- The int that stands for a truth value. -/
def ofBool (truth : Bool) : Value :=
  int (if truth then 1 else 0)

/-- The value that a field or an array element starts with. -/
def zero : FieldType → Value
  | .long => long 0
  | .float => float 0
  | .double => double 0
  | .object _ | .array _ => null
  | _ => int 0

/-- The slots of a sequence of values: a filler follows each wide one. -/
def toSlots (values : List Value) : List Value :=
  values.flatMap fun value => if value.isWide then [value, top] else [value]

/-- The values of a sequence of slots, without the fillers. -/
def ofSlots (slots : List Value) : List Value :=
  slots.filter (· != top)

/-- Cuts an int to the width of a byte. -/
def signedByte (value : Int32) : Int32 := value.toInt8.toInt32

/-- Cuts an int to the width of a short. -/
def signedShort (value : Int32) : Int32 := value.toInt16.toInt32

/-- Cuts an int to the width of a char. -/
def unsignedShort (value : Int32) : Int32 := value &&& 0xffff

/-- Cuts an int to the range of a boolean, byte, char or short; any other value stays. -/
def narrow : FieldType → Value → Value
  | .boolean, int value => int (value &&& 1)
  | .byte, int value => int (signedByte value)
  | .char, int value => int (unsignedShort value)
  | .short, int value => int (signedShort value)
  | _, value => value

end Value

/-- The kind of the values that a field of a type holds. -/
def FieldType.kind (type : FieldType) : ValueKind :=
  match type with
  | .long => .long
  | .float => .float
  | .double => .double
  | .object _ | .array _ => .reference
  | _ => .int

end JavaMachine
