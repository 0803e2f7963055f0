import JavaMachine.Assembler.Code
import JavaMachine.Constant

/-! # Assembling classes

A class is described by its name, its superclass and a list of members; assembling adds one member
after the other to a class file and its constant pool. -/

namespace JavaMachine

namespace FieldConstant

/-- The constant's index in the pool. -/
def index : FieldConstant → PoolBuilding UInt16
  | int value => PoolBuilder.integer value
  | long value => PoolBuilder.long value
  | float bits => PoolBuilder.float bits
  | double bits => PoolBuilder.double bits
  | string text => PoolBuilder.string text

end FieldConstant

/-- A statement about a class. -/
inductive ClassItem where
  | version (major minor : UInt16)
  | flags (flags : AccessFlags)
  | interface (name : String)
  | sourceFile (name : String)
  | field (flags : AccessFlags) (name descriptor : String)
  | constantField (flags : AccessFlags) (name descriptor : String) (value : FieldConstant)
  | nativeMethod (flags : AccessFlags) (name descriptor : String)
  | abstractMethod (flags : AccessFlags) (name descriptor : String)
  | method (flags : AccessFlags) (name descriptor : String) (labels : Nat)
      (body : List CodeItem)
  deriving Inhabited

/-- A class to be assembled. -/
structure ClassScript where
  name : String
  superclass : Option String
  items : List ClassItem := []
  deriving Inhabited

/-- A class under construction; members are kept latest first. -/
structure ClassBuilder where
  pool : PoolBuilder
  minorVersion : UInt16 := 0
  majorVersion : UInt16 := 52
  flags : AccessFlags := ⟨0x0021⟩
  thisClass : UInt16
  superClass : UInt16
  interfaces : Array UInt16 := #[]
  fields : Array MemberEntry := #[]
  methods : Array MemberEntry := #[]
  attributes : Array Attribute := #[]
  deriving Inhabited

/-- A step of assembling a class; the first fault ends it. -/
abbrev ClassAssembling := StateT ClassBuilder (Except AssemblyFault)

namespace ClassBuilder

/-- Runs an action on the pool. -/
def inPool {α : Type} (action : PoolBuilding α) : ClassAssembling α :=
  modifyGet fun builder =>
    let (result, pool) := action builder.pool
    (result, { builder with pool })

/-- Declares a field. -/
def addField (flags : AccessFlags) (name descriptor : String) (attributes : List Attribute) :
    ClassAssembling Unit := do
  if (FieldType.ofDescriptor? descriptor).isNone then
    throw (.fieldDescriptor descriptor)
  let name ← inPool (PoolBuilder.utf8 name)
  let descriptor ← inPool (PoolBuilder.utf8 descriptor)
  modify fun builder =>
    { builder with fields := builder.fields.push ⟨flags, name, descriptor, attributes⟩ }

/-- Declares a method without a body. -/
def addBodiless (flags : AccessFlags) (name descriptor : String) : ClassAssembling Unit := do
  if (MethodDescriptor.ofDescriptor? descriptor).isNone then
    throw (.methodDescriptor descriptor)
  let name ← inPool (PoolBuilder.utf8 name)
  let descriptor ← inPool (PoolBuilder.utf8 descriptor)
  modify fun builder =>
    { builder with methods := builder.methods.push ⟨flags, name, descriptor, []⟩ }

/-- Declares a method with a body. -/
def addMethod (flags : AccessFlags) (name descriptor : String) (labels : Nat)
    (body : List CodeItem) : ClassAssembling Unit := do
  let nameIndex ← inPool (PoolBuilder.utf8 name)
  let descriptorIndex ← inPool (PoolBuilder.utf8 descriptor)
  let codeIndex ← inPool (PoolBuilder.utf8 "Code")
  let builder ← get
  match CodeBuilder.assemble builder.pool flags.isStatic descriptor labels body with
  | .error fault => throw (.inMethod name descriptor fault)
  | .ok (body, pool) =>
    let entry : MemberEntry := ⟨flags, nameIndex, descriptorIndex, [.code codeIndex body]⟩
    set { builder with pool, methods := builder.methods.push entry }

/-- Adds what one item says. -/
def item : ClassItem → ClassAssembling Unit
  | .version major minor =>
    modify fun builder => { builder with majorVersion := major, minorVersion := minor }
  | .flags flags => modify fun builder => { builder with flags }
  | .interface name => do
    let index ← inPool (PoolBuilder.classRef name)
    modify fun builder => { builder with interfaces := builder.interfaces.push index }
  | .sourceFile name => do
    let nameIndex ← inPool (PoolBuilder.utf8 "SourceFile")
    let file ← inPool (PoolBuilder.utf8 name)
    modify fun builder =>
      { builder with attributes := builder.attributes.push (.raw nameIndex (Writer.u16 file)) }
  | .field flags name descriptor => addField flags name descriptor []
  | .constantField flags name descriptor value => do
    let valueIndex ← inPool value.index
    let nameIndex ← inPool (PoolBuilder.utf8 "ConstantValue")
    addField flags name descriptor [.raw nameIndex (Writer.u16 valueIndex)]
  | .nativeMethod flags name descriptor => addBodiless (flags.set 0x0100) name descriptor
  | .abstractMethod flags name descriptor => addBodiless (flags.set 0x0400) name descriptor
  | .method flags name descriptor labels body => addMethod flags name descriptor labels body

/-- A class without members. -/
def start (name : String) (superclass : Option String) : ClassBuilder :=
  let (thisClass, pool) := PoolBuilder.classRef name {}
  match superclass with
  | none => { pool, thisClass, superClass := 0 }
  | some superclass =>
    let (superClass, pool) := PoolBuilder.classRef superclass pool
    { pool, thisClass, superClass }

/-- The finished class. Index 65535 must stay free, so that the count of the pool fits. -/
def finish (builder : ClassBuilder) : Except AssemblyFault ClassFile := do
  if builder.pool.entries.size ≥ 0xffff then
    throw .poolTooLarge
  return {
    minorVersion := builder.minorVersion
    majorVersion := builder.majorVersion
    pool := builder.pool.entries
    flags := builder.flags
    thisClass := builder.thisClass
    superClass := builder.superClass
    interfaces := builder.interfaces.toList
    fields := builder.fields.toList
    methods := builder.methods.toList
    attributes := builder.attributes.toList }

end ClassBuilder

namespace ClassScript

/-- The class file that a script describes. -/
def assemble (script : ClassScript) : Except AssemblyFault ClassFile := do
  let start := ClassBuilder.start script.name script.superclass
  let ((), builder) ← (script.items.forM ClassBuilder.item).run start
  builder.finish

end ClassScript

end JavaMachine
