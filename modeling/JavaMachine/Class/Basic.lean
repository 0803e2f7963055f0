import JavaMachine.Constant
import JavaMachine.Names

/-! # Linked classes

A class whose constants have their meaning, whose superclass and interfaces are at hand, and whose
fields have their slots. A linked class never changes and is known by its name; what changes while
code runs is kept in the machine. -/

namespace JavaMachine

/-- A field of a linked class. The slot counts in the layout of objects, or among the static fields
of its class. -/
structure Field where
  flags : AccessFlags
  name : String
  type : FieldType
  constant : Option FieldConstant
  slot : Nat
  deriving DecidableEq, Inhabited

/-- A handler of what is thrown at an offset from `start` up to, and not including, `stop`. Without
a catch type it handles everything. -/
structure Handler where
  start : Nat
  stop : Nat
  target : Nat
  catchType : Option String
  deriving DecidableEq, Inhabited

namespace Handler

/-- Whether an offset is in the range of the handler. -/
def covers (handler : Handler) (pc : Nat) : Bool :=
  handler.start ≤ pc && pc < handler.stop

end Handler

/-- The body of a method. -/
structure Code where
  maxStack : Nat
  maxLocals : Nat
  bytes : Array UInt8
  handlers : List Handler
  deriving DecidableEq, Inhabited

/-- A method of a linked class. -/
structure Method where
  flags : AccessFlags
  name : String
  descriptorText : String
  descriptor : MethodDescriptor
  code : Option Code
  deriving DecidableEq, Inhabited

namespace Method

def isStatic (method : Method) : Bool := method.flags.isStatic
def isNative (method : Method) : Bool := method.flags.isNative
def isAbstract (method : Method) : Bool := method.flags.isAbstract
def isPrivate (method : Method) : Bool := method.flags.isPrivate

/-- The name and descriptor in one text. -/
def key (method : Method) : String :=
  methodKey method.name method.descriptorText

/-- The slots that the arguments take, the receiver included. -/
def argumentSlots (method : Method) : Nat :=
  method.descriptor.parameterSlots + (if method.isStatic then 0 else 1)

/-- Native and abstract methods have no code of their own. -/
def isBodiless (method : Method) : Bool :=
  method.isNative || method.isAbstract

end Method

/-- The part of a linked class that refers to no other class. -/
structure ClassInfo where
  name : String
  flags : AccessFlags
  pool : Array Constant
  /-- The static fields the class declares. -/
  staticFields : List Field
  /-- The layout of its objects, inherited fields first. -/
  instanceFields : List Field
  methods : Array Method
  sourceFile : Option String
  /-- The type of the elements, if the class is an array class. -/
  component : Option FieldType
  deriving Inhabited

/-- Where a method is found: in an ancestor, or in the class itself if there is no owner. -/
structure MethodEntry (Owner : Type) where
  owner : Option Owner
  index : Nat
  deriving Inhabited

/-- A linked class: its own part, its superclass, the interfaces it names, the class of its
elements if it is an array class of references, and the methods that can be selected on it. -/
inductive LinkedClass where
  | mk (info : ClassInfo) (superclass : Option LinkedClass) (interfaces : List LinkedClass)
      (element : Option LinkedClass) (table : List (String × MethodEntry LinkedClass))

namespace LinkedClass

instance : Inhabited LinkedClass := ⟨mk default none [] none []⟩

def info : LinkedClass → ClassInfo
  | mk info _ _ _ _ => info

def superclass : LinkedClass → Option LinkedClass
  | mk _ superclass _ _ _ => superclass

def interfaces : LinkedClass → List LinkedClass
  | mk _ _ interfaces _ _ => interfaces

def element : LinkedClass → Option LinkedClass
  | mk _ _ _ element _ => element

def table : LinkedClass → List (String × MethodEntry LinkedClass)
  | mk _ _ _ _ table => table

def name (c : LinkedClass) : String := c.info.name
def flags (c : LinkedClass) : AccessFlags := c.info.flags
def methods (c : LinkedClass) : Array Method := c.info.methods
def staticFields (c : LinkedClass) : List Field := c.info.staticFields
def instanceFields (c : LinkedClass) : List Field := c.info.instanceFields
def component (c : LinkedClass) : Option FieldType := c.info.component
def isInterface (c : LinkedClass) : Bool := c.flags.isInterface
def isAbstract (c : LinkedClass) : Bool := c.flags.isAbstract
def isArray (c : LinkedClass) : Bool := c.component.isSome

/-- The constant at an index; a filler is none. -/
def constant? (c : LinkedClass) (index : UInt16) : Option Constant :=
  match index.toNat with
  | 0 => none
  | position + 1 =>
    match c.info.pool[position]? with
    | some .empty => none
    | found => found

/-- The method at an index. -/
def method? (c : LinkedClass) (index : Nat) : Option Method :=
  c.methods[index]?

/-- The first method the class declares with a name and descriptor. -/
def declaredMethod? (c : LinkedClass) (name descriptor : String) : Option Nat :=
  c.methods.findIdx? fun method => method.name == name && method.descriptorText == descriptor

/-- The most derived instance field with a name. -/
def instanceField? (c : LinkedClass) (name : String) : Option Field :=
  c.instanceFields.reverse.find? (·.name == name)

/-- The first static field the class itself declares with a name. -/
def declaredStaticField? (c : LinkedClass) (name : String) : Option Field :=
  c.staticFields.find? (·.name == name)

/-- The static field with a name: of the class itself, else of its interfaces in order, else of its
superclass; together with the class that declares it. -/
def staticField? (fieldName : String) (c : LinkedClass) : Option (LinkedClass × Field) :=
  match c with
  | mk info superclass interfaces element table =>
    match info.staticFields.find? (·.name == fieldName) with
    | some field => some (mk info superclass interfaces element table, field)
    | none => inInterfaces interfaces <|> inSuperclass superclass
where
  inInterfaces : List LinkedClass → Option (LinkedClass × Field)
    | [] => none
    | first :: rest => staticField? fieldName first <|> inInterfaces rest
  inSuperclass : Option LinkedClass → Option (LinkedClass × Field)
    | none => none
    | some superclass => staticField? fieldName superclass

end LinkedClass

end JavaMachine
