import JavaMachine.Class.MethodTable

/-! # Linking

From a class file, with its constants resolved and the classes it depends on at hand, to a linked
class. Members are taken in the order of the file and the first one that has no meaning is the one
reported. -/

namespace JavaMachine

/-- The part of linking that may fail. -/
abbrev Linking := Except Error

namespace Link

/-- The constant at an index; a filler is none. -/
def constantAt (pool : Array Constant) (index : UInt16) : Linking Constant :=
  match index.toNat with
  | 0 => .error (.unresolvedConstant index .missing)
  | position + 1 =>
    match pool[position]? with
    | none | some .empty => .error (.unresolvedConstant index .missing)
    | some constant => .ok constant

/-- A use of a constant that is of another kind than expected. -/
def unexpected {α : Type} (index : UInt16) (expected : ConstantKind) (found : Constant) :
    Linking α :=
  .error (.unresolvedConstant index (.unexpected expected (found.kind?.getD .utf8)))

/-- The text at an index. -/
def textAt (pool : Array Constant) (index : UInt16) : Linking String := do
  match ← constantAt pool index with
  | .utf8 text => return text
  | other => unexpected index .utf8 other

/-- The name of the class at an index. -/
def classNameAt (pool : Array Constant) (index : UInt16) : Linking String := do
  match ← constantAt pool index with
  | .classRef name => return name
  | other => unexpected index .classRef other

/-- What an attribute says to the machine. -/
inductive Meaning where
  | constantValue (value : FieldConstant)
  | sourceFile (name : String)
  | other
  deriving DecidableEq, Inhabited

/-- The index that is the whole content of an attribute. -/
def indexOf (name : String) (info : List UInt8) : Linking UInt16 :=
  match info with
  | [high, low] => .ok (high.toUInt16 <<< 8 ||| low.toUInt16)
  | _ => .error (.malformedClassFile (.attributeSize name info.length))

/-- The constant that a field may start with. -/
def constantValueAt (pool : Array Constant) (index : UInt16) : Linking FieldConstant := do
  match ← constantAt pool index with
  | .integer value => return .int value
  | .long value => return .long value
  | .float bits => return .float bits
  | .double bits => return .double bits
  | .string text => return .string text
  | found => throw (.unresolvedConstant index (.notConstantValue (found.kind?.getD .utf8)))

/-- What an attribute says; method bodies are taken elsewhere. -/
def meaningOf (pool : Array Constant) (item : Attribute) : Linking Meaning := do
  let name ← textAt pool item.name
  match item with
  | .code _ _ => return .other
  | .raw _ info =>
    if name == "ConstantValue" then
      return .constantValue (← constantValueAt pool (← indexOf name info))
    else if name == "SourceFile" then
      return .sourceFile (← textAt pool (← indexOf name info))
    else return .other

/-- A field, its slot still to be given. -/
def field (pool : Array Constant) (entry : MemberEntry) : Linking Field := do
  let name ← textAt pool entry.name
  let descriptor ← textAt pool entry.descriptor
  match FieldType.ofDescriptor? descriptor with
  | none => throw (.unresolvedConstant entry.descriptor (.fieldDescriptorOf descriptor name))
  | some type =>
    let meanings ← entry.attributes.mapM (meaningOf pool)
    let constant := meanings.findSome? fun
      | .constantValue value => some value
      | _ => none
    return { flags := entry.flags, name, type, constant, slot := 0 }

/-- A row of an exception table. -/
def handler (pool : Array Constant) (size : Nat) (method : String) (entry : HandlerEntry) :
    Linking Handler := do
  let start := entry.startPc.toNat
  let stop := entry.endPc.toNat
  let target := entry.handlerPc.toNat
  if start ≥ stop ∨ stop > size ∨ target ≥ size then
    throw (.malformedClassFile (.handlerRange start stop target method))
  if entry.catchType = 0 then
    return ⟨start, stop, target, none⟩
  else
    return ⟨start, stop, target, some (← classNameAt pool entry.catchType)⟩

/-- A method body. -/
def code (pool : Array Constant) (method : String) (body : CodeBody Attribute) :
    Linking Code := do
  let bytes := body.code.toArray
  let handlers ← body.handlers.mapM (handler pool bytes.size method)
  return ⟨body.maxStack.toNat, body.maxLocals.toNat, bytes, handlers⟩

/-- The body among the attributes of a method, the last one if there are several. -/
def codeAmong (pool : Array Constant) (method : String) :
    List Attribute → Option Code → Linking (Option Code)
  | [], found => return found
  | .code _ body :: rest, _ => do
    codeAmong pool method rest (some (← code pool method body))
  | item :: rest, found => do
    let _ ← meaningOf pool item
    codeAmong pool method rest found

/-- A method. It has a body exactly if it is neither native nor abstract. -/
def method (pool : Array Constant) (entry : MemberEntry) : Linking Method := do
  let name ← textAt pool entry.name
  let descriptorText ← textAt pool entry.descriptor
  match MethodDescriptor.ofDescriptor? descriptorText with
  | none => throw (.unresolvedConstant entry.descriptor (.methodDescriptorOf descriptorText name))
  | some descriptor =>
    let code ← codeAmong pool name entry.attributes none
    let bodiless := entry.flags.isNative || entry.flags.isAbstract
    if code.isNone && !bodiless then
      throw (.malformedClassFile (.missingCode (methodKey name descriptorText)))
    if code.isSome && bodiless then
      throw (.malformedClassFile (.unexpectedCode (methodKey name descriptorText)))
    return ⟨entry.flags, name, descriptorText, descriptor, code⟩

/-- Gives fields their slots, one after the other from a first one on. -/
def withSlots (first : Nat) (fields : List Field) : List Field :=
  fields.mapIdx fun position field => { field with slot := first + position }

/-- The linked class of a file, given its resolved constants, its name and what it extends. -/
def link (file : ClassFile) (pool : Array Constant) (name : String)
    (superclass : Option LinkedClass) (interfaces : List LinkedClass) : Linking LinkedClass := do
  let fields ← file.fields.mapM (field pool)
  let methods ← file.methods.mapM (method pool)
  let meanings ← file.attributes.mapM (meaningOf pool)
  let sourceFile := meanings.findSome? fun
    | .sourceFile name => some name
    | _ => none
  let inherited := (superclass.map LinkedClass.instanceFields).getD []
  let (static, own) := fields.partition (·.flags.isStatic)
  let methods := methods.toArray
  let info : ClassInfo := {
    name
    flags := file.flags
    pool
    staticFields := withSlots 0 static
    instanceFields := inherited ++ withSlots inherited.length own
    methods
    sourceFile
    component := none }
  return .mk info superclass interfaces none (MethodTable.build methods superclass interfaces)

/-- The class of arrays with elements of a type. -/
def arrayClass (name : String) (component : FieldType) (element : Option LinkedClass)
    (object : LinkedClass) : LinkedClass :=
  let info : ClassInfo := {
    name
    flags := ⟨0x0411⟩
    pool := #[]
    staticFields := []
    instanceFields := []
    methods := #[]
    sourceFile := none
    component := some component }
  .mk info (some object) [] element (MethodTable.build #[] (some object) [])

end Link

end JavaMachine
