import JavaMachine.Instruction.Basic

/-! # Field instructions

A field reference is resolved by name and type at its first use, to a static field or to a slot of
instances, and stays what it was found to be. -/

namespace JavaMachine

/-- The error of a field reference that leads to no field of a class. -/
def FieldSymbol.notIn (symbol : FieldSymbol) (c : LinkedClass) : Error :=
  .noSuchField c.name (symbol.name ++ ":" ++ symbol.type.descriptor)

/-- The static field that a reference names in a class. -/
def FieldSymbol.findStatic (symbol : FieldSymbol) (c : LinkedClass) : Except Error Linkage :=
  match c.staticField? symbol.name with
  | some (owner, field) =>
    if field.type = symbol.type then .ok (.staticField owner field.slot)
    else .error (symbol.notIn c)
  | none => .error (symbol.notIn c)

/-- The slot of the instance field that a reference names in a class. -/
def FieldSymbol.findInstance (symbol : FieldSymbol) (c : LinkedClass) : Except Error Linkage :=
  match c.instanceField? symbol.name with
  | some field =>
    if field.type = symbol.type then .ok (.instanceField field.slot) else .error (symbol.notIn c)
  | none => .error (symbol.notIn c)

namespace Step

/-- The field reference at an index. -/
def fieldSymbolAt (index : UInt16) : Step FieldSymbol := do
  match ← constantAt index with
  | .fieldref symbol => return symbol
  | other => wrongConstant .fieldref index other

/-- What a reference is linked to. Unless that is known, it is found in the class that the reference
names, and noted. -/
def linked (index : UInt16) (className : String) (find : LinkedClass → Except Error Linkage) :
    Step Linkage := do
  match ← linkAt index with
  | none | some (.named _) =>
    let c ← classNamed index className
    let link ← Exec.ofExcept (find c)
    setLink index link
    return link
  | some link => return link

/-- The initialized class and the slot of a static field. -/
def staticSlot (index : UInt16) (symbol : FieldSymbol) : Step (LinkedClass × Nat) := do
  match ← linked index symbol.owner symbol.findStatic with
  | .staticField owner slot =>
    Exec.ensureInitialized owner
    return (owner, slot)
  | _ => fault .staticAccessToInstanceField

/-- The slot of an instance field. -/
def instanceSlot (index : UInt16) (symbol : FieldSymbol) : Step Nat := do
  match ← linked index symbol.owner symbol.findInstance with
  | .instanceField slot => return slot
  | _ => fault .instanceAccessToStaticField

/-- Pushes a static field. -/
def getStatic : Step Unit := do
  let index ← readShort
  let symbol ← fieldSymbolAt index
  let (owner, slot) ← staticSlot index symbol
  let value ← Exec.getStatic owner slot
  Frame.push value

/-- Pops a value into a static field. -/
def putStatic : Step Unit := do
  let index ← readShort
  let symbol ← fieldSymbolAt index
  let (owner, slot) ← staticSlot index symbol
  let value ← Frame.pop
  checkKind .putstatic symbol.type value
  Exec.setStatic owner slot (Value.narrow symbol.type value)

/-- Replaces an object on the stack by the content of one of its fields. -/
def getField : Step Unit := do
  let index ← readShort
  let symbol ← fieldSymbolAt index
  let slot ← instanceSlot index symbol
  let ref ← popObject
  let value ← Exec.getField ref slot
  Frame.push value

/-- Pops a value into a field of the object below it. -/
def putField : Step Unit := do
  let index ← readShort
  let symbol ← fieldSymbolAt index
  let slot ← instanceSlot index symbol
  let value ← Frame.pop
  let ref ← popObject
  checkKind .putfield symbol.type value
  Exec.putField ref slot (Value.narrow symbol.type value)

end Step

end JavaMachine
