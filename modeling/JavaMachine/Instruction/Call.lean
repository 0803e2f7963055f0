import JavaMachine.Class.MethodTable
import JavaMachine.Instruction.Field

/-! # Call instructions

A method reference is resolved in the class it names at its first use. Static, private and special
calls run the method found there; all other calls look the method up again in the class of the
receiver. -/

namespace JavaMachine

/-- The method that a reference names in a class. -/
def MethodSymbol.find (symbol : MethodSymbol) (c : LinkedClass) : Except Error Linkage :=
  match c.findMethod? symbol.key with
  | some (owner, index) => .ok (.method owner index)
  | none => .error (.noSuchMethod c.name symbol.key)

namespace Step

/-- The method reference at an index. -/
def methodSymbolAt (index : UInt16) : Step MethodSymbol := do
  match ← constantAt index with
  | .methodref symbol | .interfaceMethodref symbol => return symbol
  | other => wrongConstant .methodref index other

/-- The class, the index and the method that a reference is linked to. -/
def methodAt (index : UInt16) (symbol : MethodSymbol) : Step (LinkedClass × Nat × Method) := do
  match ← linked index symbol.owner symbol.find with
  | .method owner position =>
    match owner.method? position with
    | some method => return (owner, position, method)
    | none => Exec.fail (.virtualMachine (.noMethod owner.name position))
  | _ => Exec.fail (.noSuchMethod symbol.owner symbol.key)

/-- Calls a static method. -/
def invokeStatic : Step Next := do
  let index ← readShort
  let symbol ← methodSymbolAt index
  let (owner, position, method) ← methodAt index symbol
  if !method.isStatic then
    fault (.staticCall symbol.key)
  Exec.ensureInitialized owner
  let arguments ← Frame.popSlots method.argumentSlots
  return .call owner position arguments

/-- Calls the very method that is referred to, on an object. -/
def invokeSpecial : Step Next := do
  let index ← readShort
  let symbol ← methodSymbolAt index
  let (owner, position, method) ← methodAt index symbol
  if method.isStatic then
    fault (.specialCall symbol.key)
  let arguments ← Frame.popSlots method.argumentSlots
  match arguments with
  | .reference none :: _ => Exec.throwNew ClassName.nullPointerException none
  | _ => return .call owner position arguments

/-- The reference that is called upon. -/
def receiver (arguments : List Value) : Step Ref := do
  match arguments with
  | .reference (some ref) :: _ => return ref
  | .reference none :: _ => Exec.throwNew ClassName.nullPointerException none
  | _ => fault .receiverKind

/-- Calls the method that the class of an object has for a reference. -/
def dispatch (op : Opcode) (index : UInt16) : Step Next := do
  let symbol ← methodSymbolAt index
  let (owner, position, method) ← methodAt index symbol
  if method.isStatic then
    fault (.dispatchedCall op.mnemonic symbol.key)
  let arguments ← Frame.popSlots method.argumentSlots
  let ref ← receiver arguments
  if method.isPrivate then
    return .call owner position arguments
  else
    let c := (← Exec.object ref).type
    match c.findMethod? symbol.key with
    | some (owner, position) => return .call owner position arguments
    | none => Exec.fail (.noSuchMethod c.name symbol.key)

/-- Calls a method of a class on an object. -/
def invokeVirtual : Step Next := do
  dispatch .invokevirtual (← readShort)

/-- Calls a method of an interface on an object. Two further bytes of operands say nothing. -/
def invokeInterface : Step Next := do
  let index ← readShort
  let _ ← readShort
  dispatch .invokeinterface index

/-- There are no dynamic calls. -/
def invokeDynamic : Step Next := do
  let frame ← frame
  Exec.fail (.virtualMachine (.dynamicCall frame.site frame.pc))

end Step

end JavaMachine
