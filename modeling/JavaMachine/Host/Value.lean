import JavaMachine.Class.Subtype
import JavaMachine.Machine.Initialization
import JavaMachine.Number.FloatingPoint

/-! # Values of the host

What the host passes to methods and fields and gets back from them. Numbers are passed where a type
they widen to is declared. Strings and arrays are copied in both directions; any other object is
the object itself. -/

namespace JavaMachine

/-- A value as the host sees it. -/
inductive HostValue where
  /-- The result of a method that returns nothing. -/
  | void
  | boolean (value : Bool)
  | byte (value : Int8)
  | char (unit : UInt16)
  | short (value : Int16)
  | int (value : Int32)
  | long (value : Int64)
  | float (bits : UInt32)
  | double (bits : UInt64)
  | null
  | string (text : String)
  | array (items : List HostValue)
  | object (ref : Ref)
  deriving Inhabited

namespace HostValue

/-- The name of the kind of a value in messages. -/
def typeName : HostValue → String
  | void => "void"
  | boolean _ => "boolean"
  | byte _ => "byte"
  | char _ => "char"
  | short _ => "short"
  | int _ => "int"
  | long _ => "long"
  | float _ => "float"
  | double _ => "double"
  | null => "null"
  | string _ => "String"
  | array _ => "array"
  | object _ => "object"

/-- The names of the kinds of some values in messages. -/
def typeNames (values : List HostValue) : String :=
  ", ".intercalate (values.map typeName)

/-- Whether a number may be passed where a type is declared. -/
def widensTo : HostValue → FieldType → Bool
  | boolean _, .boolean => true
  | byte _, .byte | byte _, .short | byte _, .int => true
  | char _, .char | char _, .int => true
  | short _, .short | short _, .int => true
  | int _, .int => true
  | byte _, .long | char _, .long | short _, .long | int _, .long | long _, .long => true
  | byte _, .float | char _, .float | short _, .float | int _, .float | long _, .float
  | float _, .float => true
  | byte _, .double | char _, .double | short _, .double | int _, .double | long _, .double
  | float _, .double | double _, .double => true
  | _, _ => false

/-- Whether an object may be passed where a type is declared; not if the class cannot be loaded. -/
def objectAccepted (ref : Ref) (type : FieldType) : Exec Bool := do
  let source := (← Exec.object ref).type
  let target ← tryCatch (some <$> Exec.load type.className) fun _ => pure none
  return target.any source.isAssignableTo

/-- Whether a value may be passed where a type is declared. An array may be passed as
`java/lang/Object` if all its elements may. -/
def acceptedBy (type : FieldType) : HostValue → Exec Bool
  | null => return type.isReference
  | string _ => return type = .object ClassName.string || type = .object ClassName.object
  | array items =>
    match type with
    | .array component => allAccepted component items
    | .object name =>
      if name = ClassName.object then allAccepted type items else return false
    | _ => return false
  | object ref => if type.isReference then objectAccepted ref type else return false
  | number => return number.widensTo type
where
  allAccepted (type : FieldType) : List HostValue → Exec Bool
    | [] => return true
    | first :: rest => do
      if ← acceptedBy type first then allAccepted type rest else return false

/-- The integer that a number of an integral type stands for. -/
def integer? : HostValue → Option Int
  | byte value => some value.toInt
  | char unit => some unit.toNat
  | short value => some value.toInt
  | int value => some value.toInt
  | _ => none

/-- The slot value of a number as a value of a type. -/
def numberValue? (type : FieldType) (value : HostValue) : Option Value :=
  match value, type with
  | boolean truth, _ => some (.ofBool truth)
  | long value, .long => some (.long value)
  | long value, .float => some (.float (Single.ofInt value.toInt))
  | long value, .double => some (.double (Double.ofInt value.toInt))
  | float bits, .float => some (.float bits)
  | float bits, .double => some (.double (Double.ofSingle bits))
  | double bits, .double => some (.double bits)
  | value, .long => value.integer?.map fun number => .long (Int64.ofInt number)
  | value, .float => value.integer?.map fun number => .float (Single.ofInt number)
  | value, .double => value.integer?.map fun number => .double (Double.ofInt number)
  | value, _ => value.integer?.map fun number => .int (Int32.ofInt number)

/-- The element type of an array that is passed as a value of a type. -/
def componentFor : FieldType → FieldType
  | .array component => component
  | _ => .object ClassName.object

/-- The slot value of a value as a value of a type. -/
def toValue (type : FieldType) : HostValue → Exec Value
  | null => return .null
  | string text => do return .reference (some (← Exec.newString text))
  | array items => do
    let component := componentFor type
    let c ← Exec.loadArray component
    let elements ← allToValues component items
    return .reference (some (← Exec.allocateElements c elements.toArray))
  | object ref => return .reference (some ref)
  | number =>
    match number.numberValue? type with
    | some value => return value
    | none => Exec.fail (.illegalArgument (.notPassable number.typeName type))
where
  allToValues (type : FieldType) : List HostValue → Exec (List Value)
    | [] => return []
    | first :: rest => do return (← toValue type first) :: (← allToValues type rest)

/-- A way of giving the host a value that is declared with a type. -/
abbrev Giving := FieldType → Value → Exec HostValue

/-- What the host gets for a reference, given a way of giving it the elements of arrays. -/
def ofReference (give : Giving) (target : Option Ref) : Exec HostValue := do
  match target with
  | none => return null
  | some ref =>
    match (← Exec.object ref).body with
    | .text content => return string content
    | .elements component slots => return array (← slots.toList.mapM (give component))
    | .fields _ => return object ref

/-- What the host gets for a value that is declared with a type. Arrays are copied up to a depth of
`fuel`; an array that contains itself has no copy. -/
def ofValue : (fuel : Nat) → Giving
  | 0, _, _ => throw .outOfFuel
  | fuel + 1, type, value =>
    match type, value with
    | .boolean, .int value => return boolean (value ≠ 0)
    | .byte, .int value => return byte value.toInt8
    | .char, .int value => return char value.toUInt32.toUInt16
    | .short, .int value => return short value.toInt16
    | .int, .int value => return int value
    | .long, .long value => return long value
    | .float, .float bits => return float bits
    | .double, .double bits => return double bits
    | .object _, .reference target | .array _, .reference target =>
      ofReference (ofValue fuel) target
    | type, value => Exec.fail (.virtualMachine (.undeclaredValue value.kind type))

/-- What the host gets for a value that is declared with a type. Arrays without cycles are no
deeper than there are objects. -/
def give : Giving := fun type value => do
  ofValue ((← get).heap.objects.size + 2) type value

end HostValue

end JavaMachine
