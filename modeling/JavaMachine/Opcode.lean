/-! # Opcodes

The instruction set, one constructor per family: an instruction that exists once per operand kind
carries the kind, a short form carries its number. `Opcode.all` lists the set in the order of the
byte codes, so that the byte of an opcode is its position in the list. -/

namespace JavaMachine

/-- The kinds of value that locals and the operand stack distinguish. -/
inductive ValueKind where
  | int
  | long
  | float
  | double
  | reference
  deriving DecidableEq, Inhabited

namespace ValueKind

/-- Every kind, in the order in which opcodes are laid out. -/
def all : List ValueKind :=
  [int, long, float, double, reference]

/-- The slots a value of the kind takes. -/
def slots : ValueKind → Nat
  | long | double => 2
  | _ => 1

/-- The first letter of the mnemonics that work on the kind. -/
def letter : ValueKind → String
  | int => "i"
  | long => "l"
  | float => "f"
  | double => "d"
  | reference => "a"

/-- The name of the kind in messages. -/
def name : ValueKind → String
  | int => "int"
  | long => "long"
  | float => "float"
  | double => "double"
  | reference => "reference"

end ValueKind

/-- The kinds of array element that array instructions distinguish; `byte` is for booleans too. -/
inductive ElementKind where
  | value (kind : ValueKind)
  | byte
  | char
  | short
  deriving DecidableEq, Inhabited

namespace ElementKind

/-- Every kind, in the order in which opcodes are laid out. -/
def all : List ElementKind :=
  ValueKind.all.map value ++ [byte, char, short]

/-- The slots an element takes on the operand stack. -/
def slots : ElementKind → Nat
  | value kind => kind.slots
  | _ => 1

/-- The first letter of the mnemonics that work on the kind. -/
def letter : ElementKind → String
  | value kind => kind.letter
  | byte => "b"
  | char => "c"
  | short => "s"

end ElementKind

/-- The kinds of number that arithmetic works on. -/
inductive NumberKind where
  | int
  | long
  | float
  | double
  deriving DecidableEq, Inhabited

namespace NumberKind

/-- Every kind, in the order in which opcodes are laid out. -/
def all : List NumberKind :=
  [int, long, float, double]

/-- The stack kind that holds the number. -/
def valueKind : NumberKind → ValueKind
  | int => .int
  | long => .long
  | float => .float
  | double => .double

/-- The slots a number takes. -/
def slots (kind : NumberKind) : Nat :=
  kind.valueKind.slots

/-- The letter of the kind in mnemonics. -/
def letter (kind : NumberKind) : String :=
  kind.valueKind.letter

end NumberKind

/-- The kinds of integer that shifts and bitwise instructions work on. -/
inductive IntegerKind where
  | int
  | long
  deriving DecidableEq, Inhabited

namespace IntegerKind

/-- Every kind, in the order in which opcodes are laid out. -/
def all : List IntegerKind :=
  [int, long]

/-- The slots an integer takes. -/
def slots : IntegerKind → Nat
  | int => 1
  | long => 2

/-- The letter of the kind in mnemonics. -/
def letter : IntegerKind → String
  | int => "i"
  | long => "l"

end IntegerKind

/-- The narrow integer types an int can be cut to. -/
inductive NarrowKind where
  | byte
  | char
  | short
  deriving DecidableEq, Inhabited

/-- The arithmetic operations on two numbers. -/
inductive ArithmeticOp where
  | add
  | sub
  | mul
  | div
  | rem
  deriving DecidableEq, Inhabited

namespace ArithmeticOp

/-- The operation in mnemonics. -/
def name : ArithmeticOp → String
  | add => "add"
  | sub => "sub"
  | mul => "mul"
  | div => "div"
  | rem => "rem"

end ArithmeticOp

/-- The shifts; the last one fills with zeros. -/
inductive ShiftOp where
  | left
  | right
  | unsignedRight
  deriving DecidableEq, Inhabited

namespace ShiftOp

/-- The operation in mnemonics. -/
def name : ShiftOp → String
  | left => "shl"
  | right => "shr"
  | unsignedRight => "ushr"

end ShiftOp

/-- The bitwise operations. -/
inductive BitwiseOp where
  | and
  | or
  | xor
  deriving DecidableEq, Inhabited

namespace BitwiseOp

/-- The operation in mnemonics. -/
def name : BitwiseOp → String
  | and => "and"
  | or => "or"
  | xor => "xor"

end BitwiseOp

/-- The conditions of integer branches. -/
inductive Condition where
  | eq
  | ne
  | lt
  | ge
  | gt
  | le
  deriving DecidableEq, Inhabited

namespace Condition

/-- Every condition, in the order in which opcodes are laid out. -/
def all : List Condition :=
  [eq, ne, lt, ge, gt, le]

/-- The condition in mnemonics. -/
def name : Condition → String
  | eq => "eq"
  | ne => "ne"
  | lt => "lt"
  | ge => "ge"
  | gt => "gt"
  | le => "le"

end Condition

/-- The instruction set. -/
inductive Opcode where
  | nop
  | aconstNull
  /-- The int constant that is one less than the number. -/
  | iconst (number : Fin 7)
  | lconst (number : Fin 2)
  | fconst (number : Fin 3)
  | dconst (number : Fin 2)
  | bipush
  | sipush
  | ldc
  | ldcWide
  | ldc2Wide
  | load (kind : ValueKind)
  | loadShort (kind : ValueKind) (index : Fin 4)
  | arrayLoad (kind : ElementKind)
  | store (kind : ValueKind)
  | storeShort (kind : ValueKind) (index : Fin 4)
  | arrayStore (kind : ElementKind)
  | pop
  | pop2
  /-- Copies the top slot, or the top two, below `skip` further slots. -/
  | dup (two : Bool) (skip : Fin 3)
  | swap
  | arithmetic (op : ArithmeticOp) (kind : NumberKind)
  | negate (kind : NumberKind)
  | shift (op : ShiftOp) (kind : IntegerKind)
  | bitwise (op : BitwiseOp) (kind : IntegerKind)
  | iinc
  | convert (source target : NumberKind)
  | narrow (kind : NarrowKind)
  | lcmp
  /-- Compares floats; an unordered pair counts as greater if the flag is set, else as less. -/
  | fcmp (unorderedGreater : Bool)
  | dcmp (unorderedGreater : Bool)
  | ifInt (condition : Condition)
  | ifInts (condition : Condition)
  | ifReferences (equal : Bool)
  | goto
  | jsr
  | ret
  | tableswitch
  | lookupswitch
  | returnValue (kind : ValueKind)
  | returnVoid
  | getstatic
  | putstatic
  | getfield
  | putfield
  | invokevirtual
  | invokespecial
  | invokestatic
  | invokeinterface
  | invokedynamic
  | new
  | newarray
  | anewarray
  | arraylength
  | athrow
  | checkcast
  | instanceof
  | monitorenter
  | monitorexit
  | wide
  | multianewarray
  | ifNull (null : Bool)
  | gotoWide
  | jsrWide
  deriving DecidableEq, Inhabited

namespace Opcode

/-- The instruction set in the order of the byte codes. -/
def all : List Opcode :=
  [nop, aconstNull]
  ++ [iconst 0, iconst 1, iconst 2, iconst 3, iconst 4, iconst 5, iconst 6]
  ++ [lconst 0, lconst 1, fconst 0, fconst 1, fconst 2, dconst 0, dconst 1]
  ++ [bipush, sipush, ldc, ldcWide, ldc2Wide]
  ++ ValueKind.all.map load
  ++ (ValueKind.all.flatMap fun kind => [0, 1, 2, 3].map (loadShort kind))
  ++ ElementKind.all.map arrayLoad
  ++ ValueKind.all.map store
  ++ (ValueKind.all.flatMap fun kind => [0, 1, 2, 3].map (storeShort kind))
  ++ ElementKind.all.map arrayStore
  ++ [pop, pop2, dup false 0, dup false 1, dup false 2, dup true 0, dup true 1, dup true 2, swap]
  ++ ([.add, .sub, .mul, .div, .rem].flatMap fun op => NumberKind.all.map (arithmetic op))
  ++ NumberKind.all.map negate
  ++ ([.left, .right, .unsignedRight].flatMap fun op => IntegerKind.all.map (shift op))
  ++ ([.and, .or, .xor].flatMap fun op => IntegerKind.all.map (bitwise op))
  ++ [iinc]
  ++ (NumberKind.all.flatMap fun source =>
      (NumberKind.all.filter (· != source)).map (convert source))
  ++ [narrow .byte, narrow .char, narrow .short]
  ++ [lcmp, fcmp false, fcmp true, dcmp false, dcmp true]
  ++ Condition.all.map ifInt
  ++ Condition.all.map ifInts
  ++ [ifReferences true, ifReferences false, goto, jsr, ret, tableswitch, lookupswitch]
  ++ ValueKind.all.map returnValue
  ++ [returnVoid, getstatic, putstatic, getfield, putfield]
  ++ [invokevirtual, invokespecial, invokestatic, invokeinterface, invokedynamic]
  ++ [new, newarray, anewarray, arraylength, athrow, checkcast, instanceof]
  ++ [monitorenter, monitorexit, wide, multianewarray, ifNull true, ifNull false]
  ++ [gotoWide, jsrWide]

/-- The instruction set as a table indexed by byte code. -/
def table : Array Opcode :=
  all.toArray

/-- The opcode with a byte code, if there is one. -/
def ofByte? (byte : UInt8) : Option Opcode :=
  table[byte.toNat]?

/-- The byte code of an opcode. -/
def byte (op : Opcode) : UInt8 :=
  UInt8.ofNat (all.idxOf op)

/-- The lower-case name of an opcode. -/
def mnemonic : Opcode → String
  | nop => "nop"
  | aconstNull => "aconst_null"
  | iconst 0 => "iconst_m1"
  | iconst number => s!"iconst_{number.val - 1}"
  | lconst number => s!"lconst_{number.val}"
  | fconst number => s!"fconst_{number.val}"
  | dconst number => s!"dconst_{number.val}"
  | bipush => "bipush"
  | sipush => "sipush"
  | ldc => "ldc"
  | ldcWide => "ldc_w"
  | ldc2Wide => "ldc2_w"
  | load kind => kind.letter ++ "load"
  | loadShort kind index => kind.letter ++ s!"load_{index.val}"
  | arrayLoad kind => kind.letter ++ "aload"
  | store kind => kind.letter ++ "store"
  | storeShort kind index => kind.letter ++ s!"store_{index.val}"
  | arrayStore kind => kind.letter ++ "astore"
  | pop => "pop"
  | pop2 => "pop2"
  | dup two skip =>
    (if two then "dup2" else "dup") ++ (if skip = 0 then "" else s!"_x{skip.val}")
  | swap => "swap"
  | arithmetic op kind => kind.letter ++ op.name
  | negate kind => kind.letter ++ "neg"
  | shift op kind => kind.letter ++ op.name
  | bitwise op kind => kind.letter ++ op.name
  | iinc => "iinc"
  | convert source target => source.letter ++ "2" ++ target.letter
  | narrow .byte => "i2b"
  | narrow .char => "i2c"
  | narrow .short => "i2s"
  | lcmp => "lcmp"
  | fcmp greater => if greater then "fcmpg" else "fcmpl"
  | dcmp greater => if greater then "dcmpg" else "dcmpl"
  | ifInt condition => "if" ++ condition.name
  | ifInts condition => "if_icmp" ++ condition.name
  | ifReferences equal => if equal then "if_acmpeq" else "if_acmpne"
  | goto => "goto"
  | jsr => "jsr"
  | ret => "ret"
  | tableswitch => "tableswitch"
  | lookupswitch => "lookupswitch"
  | returnValue kind => kind.letter ++ "return"
  | returnVoid => "return"
  | getstatic => "getstatic"
  | putstatic => "putstatic"
  | getfield => "getfield"
  | putfield => "putfield"
  | invokevirtual => "invokevirtual"
  | invokespecial => "invokespecial"
  | invokestatic => "invokestatic"
  | invokeinterface => "invokeinterface"
  | invokedynamic => "invokedynamic"
  | new => "new"
  | newarray => "newarray"
  | anewarray => "anewarray"
  | arraylength => "arraylength"
  | athrow => "athrow"
  | checkcast => "checkcast"
  | instanceof => "instanceof"
  | monitorenter => "monitorenter"
  | monitorexit => "monitorexit"
  | wide => "wide"
  | multianewarray => "multianewarray"
  | ifNull null => if null then "ifnull" else "ifnonnull"
  | gotoWide => "goto_w"
  | jsrWide => "jsr_w"

/-- The name of a byte code; bytes outside the instruction set have one name in common. -/
def mnemonicOfByte (byte : UInt8) : String :=
  match ofByte? byte with
  | some op => op.mnemonic
  | none => "unknown"

/-- The opcode with a name. -/
def ofMnemonic? (name : String) : Option Opcode :=
  all.find? (·.mnemonic == name)

/-- The slots that an instruction without operands pops and pushes; `none` for an instruction that
has operands. -/
def stackEffect : Opcode → Option (Nat × Nat)
  | nop => some (0, 0)
  | aconstNull | iconst _ | fconst _ => some (0, 1)
  | lconst _ | dconst _ => some (0, 2)
  | loadShort kind _ => some (0, kind.slots)
  | storeShort kind _ => some (kind.slots, 0)
  | arrayLoad kind => some (2, kind.slots)
  | arrayStore kind => some (2 + kind.slots, 0)
  | pop => some (1, 0)
  | pop2 => some (2, 0)
  | dup two skip =>
    let count := if two then 2 else 1
    some (count + skip.val, 2 * count + skip.val)
  | swap => some (2, 2)
  | arithmetic _ kind => some (2 * kind.slots, kind.slots)
  | negate kind => some (kind.slots, kind.slots)
  | shift _ kind => some (1 + kind.slots, kind.slots)
  | bitwise _ kind => some (2 * kind.slots, kind.slots)
  | convert source target => some (source.slots, target.slots)
  | narrow _ => some (1, 1)
  | lcmp | dcmp _ => some (4, 1)
  | fcmp _ => some (2, 1)
  | returnValue kind => some (kind.slots, 0)
  | returnVoid => some (0, 0)
  | arraylength => some (1, 1)
  | athrow | monitorenter | monitorexit => some (1, 0)
  | _ => none

/-- Control never passes from one of these to the instruction behind it, though each has a stack
effect of its own. -/
def endsBlock : Opcode → Bool
  | returnValue _ | returnVoid | athrow => true
  | _ => false

/-- The opcode that pushes the int 0; its neighbours push the ints next to it. -/
def iconstZero : Opcode := iconst 1

/-- The opcode that pushes a long, if there is one. -/
def ofLong? (value : Int64) : Option Opcode :=
  if value = 0 then some (lconst 0)
  else if value = 1 then some (lconst 1)
  else none

/-- The opcode that pushes a float, if there is one. -/
def ofFloat? (bits : UInt32) : Option Opcode :=
  if bits = 0 then some (fconst 0)
  else if bits = 0x3f800000 then some (fconst 1)
  else if bits = 0x40000000 then some (fconst 2)
  else none

/-- The opcode that pushes a double, if there is one. -/
def ofDouble? (bits : UInt64) : Option Opcode :=
  if bits = 0 then some (dconst 0)
  else if bits = 0x3ff0000000000000 then some (dconst 1)
  else none

end Opcode

end JavaMachine
