import JavaMachine.Value

/-! # Errors

Every way in which the library refuses its input, as data: reading a class file, resolving a
constant pool, assembling, loading and linking a class, executing code, and calling in from
outside. The wording of all of them is in the `message` functions of this module. -/

namespace JavaMachine

/-- What is wrong where reading stops: a tag that is not known, a count that cannot be, or an end
that comes too early or too late. -/
inductive ReadFault where
  | tag
  | verify
  | eof
  deriving DecidableEq, Inhabited

namespace ReadFault

def name : ReadFault → String
  | tag => "Tag"
  | verify => "Verify"
  | eof => "Eof"

end ReadFault

/-- What is wrong with a class file. -/
inductive Malformation where
  /-- Reading stopped with so many bytes left. -/
  | unreadable (fault : ReadFault) (remaining : Nat)
  | version (major minor : UInt16)
  /-- An index into the constant pool names no entry. -/
  | poolIndex (role : String) (index : UInt16)
  | attributeName (index : UInt16)
  | missingCode (method : String)
  | unexpectedCode (method : String)
  | handlerRange (start stop handler : Nat) (method : String)
  | attributeSize (name : String) (size : Nat)
  deriving DecidableEq, Inhabited

namespace Malformation

def message : Malformation → String
  | unreadable fault remaining => s!"{fault.name} with {remaining} bytes remaining"
  | version major minor => s!"unsupported class file version {major}.{minor}"
  | poolIndex role index => s!"{role} refers to invalid constant pool index {index}"
  | attributeName index => s!"attribute name index {index} is not a Utf8 constant"
  | missingCode method => s!"method {method} has no Code attribute"
  | unexpectedCode method => s!"native or abstract method {method} has a Code attribute"
  | handlerRange start stop handler method =>
    s!"bad exception table entry [{start}, {stop}) -> {handler} in {method}"
  | attributeSize name size => s!"{name} attribute must be 2 bytes, got {size}"

end Malformation

/-- The kinds of constant. -/
inductive ConstantKind where
  | utf8
  | integer
  | float
  | long
  | double
  | classRef
  | string
  | fieldref
  | methodref
  | interfaceMethodref
  | nameAndType
  | methodHandle
  | methodType
  | dynamic
  | invokeDynamic
  | moduleRef
  | packageRef
  deriving DecidableEq, Inhabited

namespace ConstantKind

def name : ConstantKind → String
  | utf8 => "Utf8"
  | integer => "Integer"
  | float => "Float"
  | long => "Long"
  | double => "Double"
  | classRef => "Class"
  | string => "String"
  | fieldref => "Fieldref"
  | methodref => "Methodref"
  | interfaceMethodref => "InterfaceMethodref"
  | nameAndType => "NameAndType"
  | methodHandle => "MethodHandle"
  | methodType => "MethodType"
  | dynamic => "Dynamic"
  | invokeDynamic => "InvokeDynamic"
  | moduleRef => "Module"
  | packageRef => "Package"

end ConstantKind

/-- Why a constant, or a use of one, has no meaning. -/
inductive ConstantFault where
  | zeroIndex
  | outOfRange (size : Nat)
  | unusable
  | cycle
  /-- The fault is in another constant that this one refers to. -/
  | nested (index : UInt16) (fault : ConstantFault)
  | wrongKind (index : UInt16) (found expected : ConstantKind)
  | fieldDescriptor (text : String)
  | methodDescriptor (text : String)
  | encoding
  | referenceKind (kind : UInt8)
  | referenceTarget (index : UInt16) (kind : UInt8)
  | missing
  | unexpected (expected found : ConstantKind)
  | fieldDescriptorOf (text name : String)
  | methodDescriptorOf (text name : String)
  | notConstantValue (found : ConstantKind)
  deriving DecidableEq, Inhabited

namespace ConstantFault

def message : ConstantFault → String
  | zeroIndex => "index 0 is not a constant"
  | outOfRange size => s!"out of range (pool has {size} entries)"
  | unusable => "refers to an unusable slot"
  | cycle => "reference cycle"
  | nested index fault => s!"#{index} {fault.message}"
  | wrongKind index found expected => s!"#{index} is {found.name}, expected {expected.name}"
  | fieldDescriptor text => s!"bad field descriptor {text}"
  | methodDescriptor text => s!"bad method descriptor {text}"
  | encoding => "invalid modified UTF-8"
  | referenceKind kind => s!"bad reference kind {kind}"
  | referenceTarget index kind => s!"#{index} does not match reference kind {kind}"
  | missing => "no usable constant"
  | unexpected expected found => s!"expected {expected.name}, found {found.name}"
  | fieldDescriptorOf text name => s!"bad field descriptor {text} for {name}"
  | methodDescriptorOf text name => s!"bad method descriptor {text} for {name}"
  | notConstantValue found => s!"{found.name} cannot be a constant value"

end ConstantFault

/-- Why a class does not fit the classes it depends on. -/
inductive IncompatibleChange where
  | superclassOfInterface
  | noSuperclass
  | interfaceAsSuperclass (name : String)
  | finalSuperclass (name : String)
  | classAsInterface (name : String)
  deriving DecidableEq, Inhabited

namespace IncompatibleChange

def message : IncompatibleChange → String
  | superclassOfInterface => "interfaces must extend java/lang/Object"
  | noSuperclass => "only java/lang/Object may omit its superclass"
  | interfaceAsSuperclass name => s!"superclass {name} is an interface"
  | finalSuperclass name => s!"cannot inherit from final class {name}"
  | classAsInterface name => s!"{name} is not an interface"

end IncompatibleChange

/-- Why a class cannot be loaded. -/
inductive LoadFault where
  | notFound
  | missingSuperclass (name : String)
  | missingInterface (name : String)
  | cyclicInheritance
  | wrongName (found : String)
  | incompatible (change : IncompatibleChange)
  | inputOutput
  deriving DecidableEq, Inhabited

namespace LoadFault

def message : LoadFault → String
  | notFound => "class not found"
  | missingSuperclass name => s!"superclass {name} is missing"
  | missingInterface name => s!"interface {name} is missing"
  | cyclicInheritance => "cyclic inheritance"
  | wrongName found => s!"class file defines {found}"
  | incompatible change => s!"incompatible class change: {change.message}"
  | inputOutput => "i/o error"

end LoadFault

/-- What an assembler refuses to write. -/
inductive AssemblyFault where
  | fieldDescriptor (text : String)
  | methodDescriptor (text : String)
  | poolTooLarge
  | stackUnderflow (offset : Nat)
  | needsOperands (mnemonic : String)
  | notBranch (mnemonic : String)
  | labelBoundTwice (label : Nat)
  | labelUnbound (label : Nat)
  | bodyTooLarge
  | branchOffset (offset : Int)
  /-- The fault is in the body of a method. -/
  | inMethod (name descriptor : String) (fault : AssemblyFault)
  deriving DecidableEq, Inhabited

namespace AssemblyFault

def message : AssemblyFault → String
  | fieldDescriptor text => s!"bad field descriptor {text}"
  | methodDescriptor text => s!"bad method descriptor {text}"
  | poolTooLarge => "constant pool is too large"
  | stackUnderflow offset => s!"operand stack underflow at {offset}"
  | needsOperands mnemonic => s!"{mnemonic} needs operands"
  | notBranch mnemonic => s!"{mnemonic} is not a branch"
  | labelBoundTwice label => s!"label {label} bound twice"
  | labelUnbound label => s!"label {label} is never bound"
  | bodyTooLarge => "method body is too large"
  | branchOffset offset => s!"branch offset {offset} out of range"
  | inMethod name descriptor fault =>
    s!"method {name}{descriptor}: illegal argument: {fault.message}"

end AssemblyFault

/-- What is wrong with the arguments of a call from outside. -/
inductive ArgumentFault where
  | assembly (fault : AssemblyFault)
  | notInstance (object target : String)
  | notInstantiable (className : String)
  | rejectedByMethod (name descriptor arguments : String)
  | rejectedByOverloads (className name arguments : String)
  | rejectedByField (name : String) (type : FieldType) (value : String)
  | notPassable (value : String) (type : FieldType)
  /-- A refusal by a class source or a native method of the host, in its own words. -/
  | host (text : String)
  deriving DecidableEq, Inhabited

namespace ArgumentFault

def message : ArgumentFault → String
  | assembly fault => fault.message
  | notInstance object target => s!"{object} is not an instance of {target}"
  | notInstantiable className => s!"{className} cannot be instantiated"
  | rejectedByMethod name descriptor arguments =>
    s!"{name}{descriptor} does not accept ({arguments})"
  | rejectedByOverloads className name arguments =>
    s!"no {className}.{name} accepts ({arguments})"
  | rejectedByField name type value =>
    s!"field {name} of type {type.descriptor} does not accept {value}"
  | notPassable value type => s!"cannot pass {value} as {type.descriptor}"
  | host text => text

end ArgumentFault

/-- A method in execution, as messages name it. -/
structure Site where
  className : String
  methodName : String
  deriving DecidableEq, Inhabited

namespace Site

def name (site : Site) : String :=
  s!"{site.className}.{site.methodName}"

end Site

/-- Why one instruction cannot be executed. -/
inductive InstructionFault where
  | codeEnds (offset : Nat)
  | unknownOpcode (byte : UInt8)
  | branchTarget (target : Int)
  | notReturnAddress (index : Nat) (found : SlotKind)
  | switchBounds (low high : Int32)
  | switchPairs (count : Int32)
  | notWidenable (mnemonic : String)
  | localKind (mnemonic : String) (expected : ValueKind) (index : Nat) (found : SlotKind)
  | operandKind (mnemonic : String) (expected : ValueKind) (found : SlotKind)
  | incrementKind (index : Nat) (found : SlotKind)
  | ldcConstant (found : ConstantKind)
  | ldc2Constant (found : ConstantKind)
  | constantKind (expected : ConstantKind) (index : UInt16) (found : ConstantKind)
  | elementAccess (mnemonic className : String)
  | staticAccessToInstanceField
  | instanceAccessToStaticField
  | staticCall (method : String)
  | specialCall (method : String)
  | dispatchedCall (mnemonic method : String)
  | receiverKind
  | instantiation (className : String)
  | arrayType (code : UInt8)
  | zeroDimensions
  | countKind
  | tooManyDimensions (className : String)
  deriving DecidableEq, Inhabited

namespace InstructionFault

/-- The two lower-case hexadecimal digits of a byte. -/
def hexByte (byte : UInt8) : String :=
  String.ofList [Nat.digitChar (byte.toNat / 16), Nat.digitChar (byte.toNat % 16)]

def message : InstructionFault → String
  | codeEnds offset => s!"code ends at {offset}"
  | unknownOpcode byte => s!"unknown opcode 0x{hexByte byte}"
  | branchTarget target => s!"branch target {target} is outside the code"
  | notReturnAddress index found =>
    s!"ret expects a return address in local {index}, found {found.name}"
  | switchBounds low high => s!"tableswitch with low {low} > high {high}"
  | switchPairs count => s!"lookupswitch with {count} pairs"
  | notWidenable mnemonic => s!"wide cannot modify {mnemonic}"
  | localKind mnemonic expected index found =>
    s!"{mnemonic} expects {expected.name} in local {index}, found {found.name}"
  | operandKind mnemonic expected found =>
    s!"{mnemonic} expects {expected.name}, found {found.name}"
  | incrementKind index found => s!"iinc expects int in local {index}, found {found.name}"
  | ldcConstant found => s!"ldc of {found.name} constants is not supported"
  | ldc2Constant found => s!"ldc2_w of a {found.name} constant"
  | constantKind expected index found =>
    s!"expected {expected.name} at #{index}, found {found.name}"
  | elementAccess mnemonic className => s!"{mnemonic} cannot access {className}"
  | staticAccessToInstanceField => "static access to an instance field"
  | instanceAccessToStaticField => "instance access to a static field"
  | staticCall method => s!"invokestatic of instance method {method}"
  | specialCall method => s!"invokespecial of static method {method}"
  | dispatchedCall mnemonic method => s!"{mnemonic} of static method {method}"
  | receiverKind => "receiver is not a reference"
  | instantiation className => s!"cannot instantiate {className}"
  | arrayType code => s!"bad newarray type {code}"
  | zeroDimensions => "multianewarray with zero dimensions"
  | countKind => "multianewarray count is not an int"
  | tooManyDimensions className => s!"{className} has fewer dimensions than requested"

end InstructionFault

/-- Why the machine stops without a throwable that code could catch. -/
inductive MachineFault where
  | stackOverflow (site : Site) (maxStack : Nat)
  | stackUnderflow (site : Site)
  | missingSlots (site : Site) (needed available : Nat)
  | localOutOfRange (site : Site) (index maxLocals : Nat)
  /-- The slot holds another kind than expected; nothing is expected where any wide value fits. -/
  | typeMismatch (site : Site) (pc : Nat) (expected : Option ValueKind) (found : SlotKind)
  | instruction (site : Site) (pc : Nat) (fault : InstructionFault)
  | dynamicCall (site : Site) (pc : Nat)
  | lengthOfNonArray (className : String)
  | noMethod (className : String) (index : Nat)
  | noCode (method : String)
  | tooManyArguments (method : String) (slots maxLocals : Nat)
  | callDepth (limit : Nat)
  | noConstant (className : String) (index : UInt16)
  | notArrayClass (className : String)
  | notString (className : String)
  | argumentKind (method : String) (index : Nat) (expected : String) (found : Option SlotKind)
  | noReceiver (method : String)
  | undeclaredValue (found : SlotKind) (type : FieldType)
  | nothingReturned (method : String) (type : FieldType)
  /-- The steps that were allowed are used up. -/
  | stepLimit
  deriving DecidableEq, Inhabited

namespace MachineFault

def message : MachineFault → String
  | stackOverflow site maxStack => s!"operand stack overflow in {site.name} (max {maxStack})"
  | stackUnderflow site => s!"operand stack underflow in {site.name}"
  | missingSlots site needed available =>
    s!"operand stack underflow in {site.name}: need {needed} slots, have {available}"
  | localOutOfRange site index maxLocals =>
    s!"local variable {index} out of range in {site.name} (max {maxLocals})"
  | typeMismatch site pc expected found =>
    let wanted := (expected.map ValueKind.name).getD "long or double"
    s!"type mismatch in {site.name} at pc {pc}: expected {wanted}, found {found.name}"
  | instruction site pc fault => s!"{fault.message} in {site.name} at {pc}"
  | dynamicCall site pc => s!"invokedynamic is not supported ({site.name} at {pc})"
  | lengthOfNonArray className => s!"arraylength on non-array {className}"
  | noMethod className index => s!"{className} has no method #{index}"
  | noCode method => s!"{method} has no code"
  | tooManyArguments method slots maxLocals =>
    s!"{method}: {slots} argument slots exceed max locals {maxLocals}"
  | callDepth limit => s!"call depth exceeds {limit}"
  | noConstant className index => s!"{className}: no usable constant at #{index}"
  | notArrayClass className => s!"{className} is not an array class"
  | notString className => s!"{className} is not a string"
  | argumentKind method index expected found =>
    let actual := (found.map SlotKind.name).getD "nothing"
    s!"{method}: argument {index} should be {expected}, found {actual}"
  | noReceiver method => s!"{method} called without a receiver"
  | undeclaredValue found type =>
    s!"{found.name} value where {type.descriptor} was declared"
  | nothingReturned method type => s!"{method} returned nothing, expected {type.descriptor}"
  | stepLimit => "too many steps"

end MachineFault

/-- The errors of the library. The last one is a throwable that no code caught. -/
inductive Error where
  | malformedClassFile (problem : Malformation)
  | unresolvedConstant (index : UInt16) (fault : ConstantFault)
  | classLoad (className : String) (fault : LoadFault)
  | classInitialization (className : String)
  | noSuchField (className field : String)
  | noSuchMethod (className method : String)
  | abstractMethod (className method : String)
  | unsatisfiedLink (className method : String)
  | illegalArgument (fault : ArgumentFault)
  | virtualMachine (fault : MachineFault)
  | thrown (className : String) (detail : Option String) (object : Ref)
  deriving DecidableEq, Inhabited

namespace Error

def message : Error → String
  | malformedClassFile problem => s!"malformed class file: {problem.message}"
  | unresolvedConstant index fault => s!"unresolved constant #{index}: {fault.message}"
  | classLoad className fault => s!"cannot load class {className}: {fault.message}"
  | classInitialization className => s!"class {className} failed to initialize"
  | noSuchField className field => s!"no such field: {className}.{field}"
  | noSuchMethod className method => s!"no such method: {className}.{method}"
  | abstractMethod className method => s!"abstract method invoked: {className}.{method}"
  | unsatisfiedLink className method => s!"native method is not bound: {className}.{method}"
  | illegalArgument fault => s!"illegal argument: {fault.message}"
  | virtualMachine fault => s!"virtual machine error: {fault.message}"
  | thrown className (some detail) _ => s!"uncaught {className}: {detail}"
  | thrown className none _ => s!"uncaught {className}"

end Error

end JavaMachine
