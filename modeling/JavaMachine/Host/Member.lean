import JavaMachine.Class.MethodTable
import JavaMachine.Host.Value

/-! # Members as the host uses them

Methods are called by name: of all methods with the name that a class has or inherits, the first
one counts that takes the arguments. Fields are read and changed by name. Each call from the host
starts with no calls in progress. -/

namespace JavaMachine

namespace LinkedClass

/-- Adds a class, its superclasses and its superinterfaces to a list of classes, each of them once:
first the class, then what its superclass adds, then what its interfaces add in order. -/
def lineageFrom (visited : List LinkedClass) : LinkedClass → List LinkedClass
  | mk info superclass interfaces element table =>
    if visited.any (·.name == info.name) then visited
    else
      let visited := visited ++ [mk info superclass interfaces element table]
      ofInterfaces (ofSuperclass visited superclass) interfaces
where
  ofSuperclass (visited : List LinkedClass) : Option LinkedClass → List LinkedClass
    | none => visited
    | some superclass => lineageFrom visited superclass
  ofInterfaces (visited : List LinkedClass) : List LinkedClass → List LinkedClass
    | [] => visited
    | first :: rest => ofInterfaces (lineageFrom visited first) rest

/-- A class with everything it extends and implements, in the order in which methods are looked
for. -/
def lineage (c : LinkedClass) : List LinkedClass :=
  c.lineageFrom []

end LinkedClass

/-- A method that may be called: the class that declares it, its index there, and itself. -/
structure Candidate where
  owner : LinkedClass
  index : Nat
  method : Method
  deriving Inhabited

namespace Candidate

/-- The methods that a class declares and that pass a test. -/
def declaredIn (c : LinkedClass) (test : Method → Bool) : List Candidate :=
  (c.methods.toList.zipIdx.filter fun (method, _) => test method).map fun (method, index) =>
    ⟨c, index, method⟩

/-- Keeps the first of the candidates with equal descriptors. -/
def distinct : (seen : List String) → List Candidate → List Candidate
  | _, [] => []
  | seen, first :: rest =>
    let descriptor := first.method.descriptorText
    if seen.contains descriptor then distinct seen rest
    else first :: distinct (descriptor :: seen) rest

/-- The methods of a name that a class has or inherits, static ones or others, one for each
descriptor. -/
def all (c : LinkedClass) (name : String) (static : Bool) : List Candidate :=
  distinct [] (c.lineage.flatMap (declaredIn · fun method =>
    method.name == name && method.isStatic == static))

/-- Whether values may be passed for parameters, as far as there are both. -/
def acceptsEach : List FieldType → List HostValue → Exec Bool
  | type :: types, value :: values => do
    if ← value.acceptedBy type then acceptsEach types values else return false
  | _, _ => return true

/-- Whether a method takes some arguments. -/
def takes (candidate : Candidate) (arguments : List HostValue) : Exec Bool := do
  let parameters := candidate.method.descriptor.parameters
  if parameters.length = arguments.length then acceptsEach parameters arguments
  else return false

/-- The first of some candidates that takes some arguments. -/
def firstTaking (arguments : List HostValue) : List Candidate → Exec (Option Candidate)
  | [] => return none
  | first :: rest => do
    if ← first.takes arguments then return some first else firstTaking arguments rest

/-- The candidate to call with some arguments. -/
def select (c : LinkedClass) (name : String) (candidates : List Candidate)
    (arguments : List HostValue) : Exec Candidate := do
  if candidates.isEmpty then
    Exec.fail (.noSuchMethod c.name name)
  match ← firstTaking arguments candidates with
  | some candidate => return candidate
  | none =>
    Exec.fail (.illegalArgument
      (.rejectedByOverloads (ClassName.dotted c.name) name (HostValue.typeNames arguments)))

/-- The slot values of arguments as values of parameters, as far as there are both. -/
def convertEach : List FieldType → List HostValue → Exec (List Value)
  | type :: types, value :: values => do
    let first ← value.toValue type
    return Value.narrow type first :: (← convertEach types values)
  | _, _ => return []

/-- The slot values of the arguments of a call. -/
def convert (candidate : Candidate) (arguments : List HostValue) : Exec (List Value) :=
  convertEach candidate.method.descriptor.parameters arguments

/-- What the host gets for the result of a call. -/
def giveResult (candidate : Candidate) (result : Option Value) : Exec HostValue :=
  match candidate.method.descriptor.returnType, result with
  | none, _ => return .void
  | some type, some value => HostValue.give type value
  | some type, none =>
    let name := candidate.owner.name ++ "." ++ candidate.method.name
    Exec.fail (.virtualMachine (.nothingReturned name type))

/-- The class and the index of the method that a call on an object runs: a private method is run as
it is, any other as the class of the object has it. -/
def dispatch (candidate : Candidate) (receiver : Ref) : Exec (LinkedClass × Nat) := do
  if candidate.method.isPrivate then return (candidate.owner, candidate.index)
  else
    let c := (← Exec.object receiver).type
    match c.findMethod? candidate.method.key with
    | some found => return found
    | none => Exec.fail (.noSuchMethod c.name candidate.method.key)

/-- Calls a method, on an object unless it is static. -/
def call (candidate : Candidate) (receiver : Option Ref) (arguments : List HostValue) :
    Exec HostValue := do
  let converted ← candidate.convert arguments
  let result ← match receiver with
    | none => do
      Exec.ensureInitialized candidate.owner
      Exec.invoke candidate.owner candidate.index (Value.toSlots converted)
    | some ref => do
      let (owner, index) ← candidate.dispatch ref
      Exec.invoke owner index (Value.toSlots (.reference (some ref) :: converted))
  candidate.giveResult result

end Candidate

/-- What the host works on: a class, or an object as an instance of a class. -/
structure Target where
  type : LinkedClass
  receiver : Option Ref
  deriving Inhabited

namespace Target

/-- A class itself. -/
def ofClass (c : LinkedClass) : Target := ⟨c, none⟩

/-- An object, which must be an instance of a class. -/
def ofInstance (c : LinkedClass) (ref : Ref) : Exec Target := do
  let object ← Exec.object ref
  if object.type.isAssignableTo c then return ⟨c, some ref⟩
  else
    Exec.fail (.illegalArgument
      (.notInstance (ClassName.dotted object.className) (ClassName.dotted c.name)))

/-! ## Methods -/

/-- The methods of a name: static ones of a class, others of an object. -/
def candidates (target : Target) (name : String) : List Candidate :=
  Candidate.all target.type name target.receiver.isNone

/-- The descriptors of the methods of a name, in the order in which a call tries them. -/
def signatures (target : Target) (name : String) : List String :=
  (target.candidates name).map (·.method.descriptorText)

/-- Calls the first method of a name that takes the arguments. -/
def call (target : Target) (name : String) (arguments : List HostValue) : Exec HostValue := do
  let candidate ← Candidate.select target.type name (target.candidates name) arguments
  candidate.call target.receiver arguments

/-- Calls the method with a name and a descriptor. -/
def callExactly (target : Target) (name descriptor : String) (arguments : List HostValue) :
    Exec HostValue := do
  match (target.candidates name).find? (·.method.descriptorText == descriptor) with
  | none => Exec.fail (.noSuchMethod target.type.name (methodKey name descriptor))
  | some candidate =>
    if ← candidate.takes arguments then candidate.call target.receiver arguments
    else
      Exec.fail (.illegalArgument
        (.rejectedByMethod name descriptor (HostValue.typeNames arguments)))

/-! ## Fields -/

/-- The place of a field: the class or the object that holds it, and its slot. -/
inductive Place where
  | static (owner : LinkedClass) (slot : Nat)
  | instance (ref : Ref) (slot : Nat)
  deriving Inhabited

/-- The place and the type of the field with a name. The class of a static field is initialized. -/
def place (target : Target) (name : String) : Exec (Place × FieldType) := do
  match target.receiver with
  | none =>
    match target.type.staticField? name with
    | none => Exec.fail (.noSuchField target.type.name name)
    | some (owner, field) =>
      Exec.ensureInitialized owner
      return (.static owner field.slot, field.type)
  | some ref =>
    let c := (← Exec.object ref).type
    match c.instanceField? name with
    | none => Exec.fail (.noSuchField c.name name)
    | some field => return (.instance ref field.slot, field.type)

namespace Place

def read : Place → Exec Value
  | static owner slot => Exec.getStatic owner slot
  | «instance» ref slot => Exec.getField ref slot

def write (value : Value) : Place → Exec Unit
  | static owner slot => Exec.setStatic owner slot value
  | «instance» ref slot => Exec.putField ref slot value

end Place

/-- The value of the field with a name. -/
def getField (target : Target) (name : String) : Exec HostValue := do
  let (place, type) ← target.place name
  HostValue.give type (← place.read)

/-- Changes the field with a name. -/
def setField (target : Target) (name : String) (value : HostValue) : Exec Unit := do
  let (place, type) ← target.place name
  if ← value.acceptedBy type then
    let converted ← value.toValue type
    place.write (Value.narrow type converted)
  else
    Exec.fail (.illegalArgument (.rejectedByField name type value.typeName))

end Target

/-- Makes an instance of a class and runs the first constructor that takes the arguments. -/
def LinkedClass.construct (c : LinkedClass) (arguments : List HostValue) : Exec Ref := do
  if c.isAbstract || c.isInterface || c.isArray then
    Exec.fail (.illegalArgument (.notInstantiable (ClassName.dotted c.name)))
  let constructors := Candidate.declaredIn c fun method => method.name == MemberName.constructor
  let candidate ← Candidate.select c MemberName.constructor constructors arguments
  Exec.ensureInitialized c
  let ref ← Exec.allocate (.ofClass c)
  let converted ← candidate.convert arguments
  let _ ← Exec.invoke c candidate.index (Value.toSlots (.reference (some ref) :: converted))
  return ref

end JavaMachine
