import JavaMachine.Class.Subtype
import JavaMachine.Instruction.Basic

/-! # Instructions on objects and arrays -/

namespace JavaMachine

namespace ElementKind

/-- Whether array instructions of a kind work on elements of a type. -/
def accepts : ElementKind → FieldType → Bool
  | value .int, .int => true
  | value .long, .long => true
  | value .float, .float => true
  | value .double, .double => true
  | value .reference, type => type.isReference
  | byte, .byte | byte, .boolean => true
  | char, .char => true
  | short, .short => true
  | _, _ => false

end ElementKind

namespace FieldType

/-- The element type that the operand of a `newarray` instruction stands for. -/
def ofArrayCode? (code : UInt8) : Option FieldType :=
  match code.toNat with
  | 4 => some .boolean
  | 5 => some .char
  | 6 => some .float
  | 7 => some .double
  | 8 => some .byte
  | 9 => some .short
  | 10 => some .int
  | 11 => some .long
  | _ => none

end FieldType

namespace Step

/-- Pushes a reference. -/
def pushObject (ref : Ref) : Step Unit :=
  onFrame (Frame.push (.reference (some ref)))

/-- Makes an instance of a class. -/
def newObject : Step Unit := do
  let index ← readShort
  let c ← classAt index
  if c.isAbstract || c.isInterface then
    fault (.instantiation c.name)
  Exec.ensureInitialized c
  let ref ← Exec.allocate (.ofClass c)
  pushObject ref

/-- The length that a count asks for. -/
def lengthOf (count : Int32) : Step Nat := do
  if count < 0 then
    Exec.throwNew ClassName.negativeArraySizeException (some (toString count.toInt))
  else return count.toInt.toNat

/-- Throws because there is no room. -/
def outOfMemory {α : Type} : Step α :=
  onMachine (Exec.throwNew ClassName.outOfMemoryError (some "Java heap space"))

/-- Makes an array with zeros as elements. -/
def allocateArray (c : LinkedClass) (length : Nat) : Step Ref := do
  if length ≤ (← read).limits.arrayLength then Exec.allocateZeros c length else outOfMemory

/-- Makes an array of primitive elements. -/
def newArray : Step Unit := do
  let code ← readByte
  match FieldType.ofArrayCode? code with
  | none => fault (.arrayType code)
  | some component =>
    let count ← Frame.popInt
    let length ← lengthOf count
    let c ← Exec.loadArray component
    pushObject (← allocateArray c length)

/-- The type of the objects of a class. -/
def typeOf (c : LinkedClass) : FieldType :=
  match c.component with
  | some component => .array component
  | none => .object c.name

/-- Makes an array of references. -/
def newReferenceArray : Step Unit := do
  let index ← readShort
  let element ← classAt index
  let count ← Frame.popInt
  let length ← lengthOf count
  let c ← Exec.loadArray (typeOf element)
  pushObject (← allocateArray c length)

/-- The counts of a multi-dimensional array, outermost first. -/
def lengthsOf : List Value → Step (List Nat)
  | [] => return []
  | .int count :: rest => do return (← lengthOf count) :: (← lengthsOf rest)
  | _ :: _ => fault .countKind

/-- The greatest count of elements; what is counted beyond it stays there. -/
def greatestCount : Nat := 0xffffffffffffffff

/-- Whether arrays of so many elements at each level fit, each level counted as a whole. -/
def fits (limit : Nat) : (created : Nat) → List Nat → Bool
  | _, [] => true
  | created, length :: rest =>
    let created := min (created * length) greatestCount
    created ≤ limit && fits limit created rest

/-- The results of doing something a number of times. -/
def repeated (action : Step Ref) : Nat → Array Value → Step (Array Value)
  | 0, made => return made
  | count + 1, made => do
    let ref ← action
    repeated action count (made.push (.reference (some ref)))

/-- Makes an array whose elements are arrays, and so on for the lengths that are left. -/
def allocateNested (c : LinkedClass) (length : Nat) : List Nat → Step Ref
  | [] => allocateArray c length
  | inner :: rest => do
    match c.element with
    | some element =>
      if !element.isArray then
        fault (.tooManyDimensions c.name)
      let elements ← repeated (allocateNested element inner rest) length #[]
      Exec.allocateElements c elements
    | none => fault (.tooManyDimensions c.name)

/-- Makes a multi-dimensional array. -/
def newNestedArray : Step Unit := do
  let index ← readShort
  let dimensions ← readByte
  let c ← classAt index
  if dimensions = 0 then
    fault .zeroDimensions
  let counts ← Frame.popSlots dimensions.toNat
  match ← lengthsOf counts with
  | [] => fault .zeroDimensions
  | outer :: inner =>
    if !fits (← read).limits.arrayLength 1 (outer :: inner) then
      outOfMemory
    pushObject (← allocateNested c outer inner)

/-- Replaces an array on the stack by its length. -/
def arrayLength : Step Unit := do
  let ref ← popObject
  let object ← Exec.object ref
  match object.length? with
  | some length => Frame.push (.int (Int32.ofNat length))
  | none => Exec.fail (.virtualMachine (.lengthOfNonArray object.className))

/-- The element type of an object, which must be an array of a kind. -/
def componentOf (op : Opcode) (kind : ElementKind) (object : HeapObject) : Step FieldType := do
  match object.array? with
  | some (component, _) =>
    if kind.accepts component then return component
    else fault (.elementAccess op.mnemonic object.className)
  | none => fault (.elementAccess op.mnemonic object.className)

/-- Throws because an array has no element at an index. -/
def indexOutOfBounds {α : Type} (object : HeapObject) (index : Int32) : Step α :=
  onMachine (Exec.throwIndex ClassName.arrayIndexOutOfBoundsException index
    (object.length?.getD 0))

/-- Pushes an element of an array. -/
def loadElement (op : Opcode) (kind : ElementKind) : Step Unit := do
  let index ← Frame.popInt
  let ref ← popObject
  let object ← Exec.object ref
  let _ ← componentOf op kind object
  match object.element? index.toInt with
  | some value => Frame.push value
  | none => indexOutOfBounds object index

/-- Throws unless a value can be an element of an array. -/
def checkElement (array : HeapObject) (value : Value) : Step Unit := do
  match value, array.type.element with
  | .reference (some ref), some expected =>
    let element ← Exec.object ref
    if !element.type.isAssignableTo expected then
      Exec.throwNew ClassName.arrayStoreException (some (ClassName.dotted element.className))
  | _, _ => return

/-- Pops a value into an element of an array. -/
def storeElement (op : Opcode) (kind : ElementKind) : Step Unit := do
  let value ← Frame.pop
  let index ← Frame.popInt
  let ref ← popObject
  let object ← Exec.object ref
  let component ← componentOf op kind object
  checkKind op component value
  checkElement object value
  if (object.element? index.toInt).isSome then
    Exec.setSlot ref index.toInt.toNat (Value.narrow component value)
  else indexOutOfBounds object index

/-- Throws unless the object on top of the stack is of a class. -/
def checkCast : Step Unit := do
  let index ← readShort
  let target ← classAt index
  let reference ← Frame.popReference
  if let some ref := reference then
    let object ← Exec.object ref
    if !object.type.isAssignableTo target then
      let source := ClassName.dotted object.className
      Exec.throwNew ClassName.classCastException
        (some s!"class {source} cannot be cast to class {ClassName.dotted target.name}")
  Frame.push (.reference reference)

/-- Replaces the reference on top of the stack by whether it is an object of a class. -/
def instanceOf : Step Unit := do
  let index ← readShort
  let target ← classAt index
  match ← Frame.popReference with
  | some ref =>
    let object ← Exec.object ref
    Frame.push (.ofBool (object.type.isAssignableTo target))
  | none => Frame.push (.ofBool false)

end Step

end JavaMachine
