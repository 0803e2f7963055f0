import JavaMachine.ModifiedUtf8

/-! # Class files

A class file as data: its constant pool, the fields and methods it declares and their attributes,
all referring to the pool by index. Floating-point constants are kept as bit patterns, and flags
bit for bit, so that no two different files have the same data. -/

namespace JavaMachine

/-- The access flags of a class, field or method. -/
structure AccessFlags where
  bits : UInt16
  deriving DecidableEq, Inhabited

namespace AccessFlags

/-- Whether any of the given bits is set. -/
def has (flags : AccessFlags) (mask : UInt16) : Bool :=
  flags.bits &&& mask != 0

/-- The flags with the given bits set in addition. -/
def set (flags : AccessFlags) (mask : UInt16) : AccessFlags :=
  ⟨flags.bits ||| mask⟩

def isPrivate (flags : AccessFlags) : Bool := flags.has 0x0002
def isStatic (flags : AccessFlags) : Bool := flags.has 0x0008
def isFinal (flags : AccessFlags) : Bool := flags.has 0x0010
def isNative (flags : AccessFlags) : Bool := flags.has 0x0100
def isInterface (flags : AccessFlags) : Bool := flags.has 0x0200
def isAbstract (flags : AccessFlags) : Bool := flags.has 0x0400

end AccessFlags

/-- An entry of a constant pool as a class file stores it. `empty` fills the index after a long or
a double. -/
inductive PoolEntry where
  | empty
  | utf8 (bytes : List UInt8)
  | integer (value : Int32)
  | float (bits : UInt32)
  | long (value : Int64)
  | double (bits : UInt64)
  | classRef (name : UInt16)
  | string (text : UInt16)
  | fieldref (owner nameAndType : UInt16)
  | methodref (owner nameAndType : UInt16)
  | interfaceMethodref (owner nameAndType : UInt16)
  | nameAndType (name descriptor : UInt16)
  | methodHandle (kind : UInt8) (reference : UInt16)
  | methodType (descriptor : UInt16)
  | dynamic (bootstrap nameAndType : UInt16)
  | invokeDynamic (bootstrap nameAndType : UInt16)
  | moduleRef (name : UInt16)
  | packageRef (name : UInt16)
  deriving DecidableEq, Inhabited

namespace PoolEntry

/-- Longs and doubles take two indices. -/
def isWide : PoolEntry → Bool
  | long _ | double _ => true
  | _ => false

end PoolEntry

/-- The entry at an index of a pool; the first entry has index 1. -/
def entryAt? (pool : Array PoolEntry) (index : UInt16) : Option PoolEntry :=
  match index.toNat with
  | 0 => none
  | position + 1 => pool[position]?

/-- A row of an exception table. The catch type is an index, zero for a handler of everything. -/
structure HandlerEntry where
  startPc : UInt16
  endPc : UInt16
  handlerPc : UInt16
  catchType : UInt16
  deriving DecidableEq, Inhabited

/-- The body of a method over a type of attributes. -/
structure CodeBody (Attr : Type) where
  maxStack : UInt16
  maxLocals : UInt16
  code : List UInt8
  handlers : List HandlerEntry
  attributes : List Attr
  deriving Inhabited

/-- An attribute: its bytes as they stand, or a method body that was decoded. -/
inductive Attribute where
  | raw (name : UInt16) (info : List UInt8)
  | code (name : UInt16) (body : CodeBody Attribute)

namespace Attribute

instance : Inhabited Attribute := ⟨raw 0 []⟩

/-- The pool index of the attribute's name. -/
def name : Attribute → UInt16
  | raw name _ => name
  | code name _ => name

/-- The decoded method body, if the attribute is one. -/
def body? : Attribute → Option (CodeBody Attribute)
  | raw _ _ => none
  | code _ body => some body

end Attribute

/-- A field or method that a class file declares. -/
structure MemberEntry where
  flags : AccessFlags
  name : UInt16
  descriptor : UInt16
  attributes : List Attribute
  deriving Inhabited

namespace MemberEntry

/-- The first decoded body of a method. -/
def body? (member : MemberEntry) : Option (CodeBody Attribute) :=
  member.attributes.findSome? Attribute.body?

end MemberEntry

/-- A class file. -/
structure ClassFile where
  minorVersion : UInt16
  majorVersion : UInt16
  pool : Array PoolEntry
  flags : AccessFlags
  thisClass : UInt16
  superClass : UInt16
  interfaces : List UInt16
  fields : List MemberEntry
  methods : List MemberEntry
  attributes : List Attribute
  deriving Inhabited

namespace ClassFile

/-- The bytes every class file starts with. -/
def magic : List UInt8 :=
  [0xca, 0xfe, 0xba, 0xbe]

/-- The bytes of the text at an index. -/
def utf8? (file : ClassFile) (index : UInt16) : Option (List UInt8) :=
  match entryAt? file.pool index with
  | some (.utf8 bytes) => some bytes
  | _ => none

/-- The name of the class that the file defines. -/
def name? (file : ClassFile) : Option String :=
  match entryAt? file.pool file.thisClass with
  | some (.classRef name) => (file.utf8? name).bind ModifiedUtf8.decode
  | _ => none

end ClassFile

end JavaMachine
