import JavaMachine.ClassFile.Basic
import JavaMachine.ModifiedUtf8
import JavaMachine.Error

/-! # Constants

What the entries of a constant pool mean once their references to each other are followed. An
entry has a meaning if everything it refers to has one and is of the right kind; references may go
forward and be shared, but not around in a circle. Each entry is resolved when it is needed for the
first time, and its meaning is kept for the next time. -/

namespace JavaMachine

/-- The initial value that a field declares. -/
inductive FieldConstant where
  | int (value : Int32)
  | long (value : Int64)
  | float (bits : UInt32)
  | double (bits : UInt64)
  | string (text : String)
  deriving DecidableEq, Inhabited

/-- A field named from outside its class. -/
structure FieldSymbol where
  owner : String
  name : String
  type : FieldType
  deriving DecidableEq, Inhabited

/-- The name and descriptor of a method in one text, by which methods are looked up. -/
def methodKey (name descriptor : String) : String :=
  name ++ descriptor

/-- A method named from outside its class. -/
structure MethodSymbol where
  owner : String
  name : String
  descriptorText : String
  descriptor : MethodDescriptor
  deriving DecidableEq, Inhabited

namespace MethodSymbol

def key (method : MethodSymbol) : String :=
  methodKey method.name method.descriptorText

end MethodSymbol

/-- The meaning of an entry of a constant pool. -/
inductive Constant where
  | empty
  | utf8 (text : String)
  | integer (value : Int32)
  | float (bits : UInt32)
  | long (value : Int64)
  | double (bits : UInt64)
  | classRef (name : String)
  | string (text : String)
  | fieldref (field : FieldSymbol)
  | methodref (method : MethodSymbol)
  | interfaceMethodref (method : MethodSymbol)
  | nameAndType (name descriptor : String)
  | methodHandle (kind : UInt8) (reference : UInt16)
  | methodType (descriptor : MethodDescriptor)
  | dynamic (bootstrap : UInt16) (name : String) (type : FieldType)
  | invokeDynamic (bootstrap : UInt16) (name : String) (descriptor : MethodDescriptor)
  | moduleRef (name : String)
  | packageRef (name : String)
  deriving DecidableEq, Inhabited

namespace Constant

/-- The kind of a constant; a filler has none. -/
def kind? : Constant → Option ConstantKind
  | empty => none
  | utf8 _ => some .utf8
  | integer _ => some .integer
  | float _ => some .float
  | long _ => some .long
  | double _ => some .double
  | classRef _ => some .classRef
  | string _ => some .string
  | fieldref _ => some .fieldref
  | methodref _ => some .methodref
  | interfaceMethodref _ => some .interfaceMethodref
  | nameAndType _ _ => some .nameAndType
  | methodHandle _ _ => some .methodHandle
  | methodType _ => some .methodType
  | dynamic _ _ _ => some .dynamic
  | invokeDynamic _ _ _ => some .invokeDynamic
  | moduleRef _ => some .moduleRef
  | packageRef _ => some .packageRef

end Constant

/-- How far the resolution of a pool has come. -/
structure Resolution where
  /-- The meanings found so far, by position. -/
  found : Array (Option Constant)
  /-- The indices of the entries that are being resolved. -/
  visiting : List UInt16
  deriving Inhabited

namespace Resolution

/-- Nothing is found yet. -/
def start (size : Nat) : Resolution :=
  ⟨Array.replicate size none, []⟩

/-- The meaning found for the entry at a position. -/
def found? (resolution : Resolution) (position : Nat) : Option Constant :=
  resolution.found.getD position none

/-- An entry begins to be resolved. -/
def visit (index : UInt16) (resolution : Resolution) : Resolution :=
  { resolution with visiting := index :: resolution.visiting }

/-- An entry is resolved. -/
def settle (index : UInt16) (position : Nat) (constant : Constant) (resolution : Resolution) :
    Resolution where
  found := resolution.found.setIfInBounds position (some constant)
  visiting := resolution.visiting.erase index

end Resolution

/-- A step of the resolution of a pool; the first error ends it. -/
abbrev Resolving := StateT Resolution (Except Error)

namespace Resolving

variable {α : Type}

/-- Ends because an entry has no meaning. -/
def fail (index : UInt16) (fault : ConstantFault) : Resolving α :=
  throw (.unresolvedConstant index fault)

/-- A result that an entry may have no meaning without. -/
def ofExcept (index : UInt16) : Except ConstantFault α → Resolving α
  | .ok value => pure value
  | .error fault => fail index fault

/-- The fault of an entry that is referred to is one of the entry that refers to it. -/
def blame (source target : UInt16) : Error → Error
  | .unresolvedConstant index fault =>
    if index = target then .unresolvedConstant source (.nested target fault)
    else .unresolvedConstant index fault
  | other => other

/-- Resolves an entry on behalf of another one that refers to it. -/
def onBehalf (source target : UInt16) (action : Resolving α) : Resolving α := fun resolution =>
  (action resolution).mapError (blame source target)

end Resolving

namespace Constant

open Resolving (fail)

/-- A way of following a reference. -/
abbrev Follow := UInt16 → Resolving Constant

/-- The fault of a reference that leads to a constant of another kind than expected. -/
def wrongKind {α : Type} (source index : UInt16) (expected : ConstantKind) (found : Constant) :
    Resolving α :=
  fail source (.wrongKind index (found.kind?.getD .utf8) expected)

def followUtf8 (follow : Follow) (source index : UInt16) : Resolving String := do
  match ← follow index with
  | utf8 text => return text
  | other => wrongKind source index .utf8 other

def followClass (follow : Follow) (source index : UInt16) : Resolving String := do
  match ← follow index with
  | classRef name => return name
  | other => wrongKind source index .classRef other

def followNameAndType (follow : Follow) (source index : UInt16) :
    Resolving (String × String) := do
  match ← follow index with
  | nameAndType name descriptor => return (name, descriptor)
  | other => wrongKind source index .nameAndType other

/-- The type that a descriptor spells. -/
def fieldTypeOf (source : UInt16) (descriptor : String) : Resolving FieldType :=
  match FieldType.ofDescriptor? descriptor with
  | some type => return type
  | none => fail source (.fieldDescriptor descriptor)

/-- The signature that a descriptor spells. -/
def signatureOf (source : UInt16) (descriptor : String) : Resolving MethodDescriptor :=
  match MethodDescriptor.ofDescriptor? descriptor with
  | some signature => return signature
  | none => fail source (.methodDescriptor descriptor)

def followMethod (follow : Follow) (source owner member : UInt16) :
    Resolving MethodSymbol := do
  let owner ← followClass follow source owner
  let (name, descriptorText) ← followNameAndType follow source member
  let descriptor ← signatureOf source descriptorText
  return { owner, name, descriptorText, descriptor }

/-- Whether a method handle of a kind may refer to a constant; `none` if there is no such kind. -/
def handleAccepts (kind : UInt8) : Option (Constant → Bool) :=
  if 1 ≤ kind ∧ kind ≤ 4 then
    some fun | fieldref _ => true | _ => false
  else if 5 ≤ kind ∧ kind ≤ 9 then
    some fun | methodref _ | interfaceMethodref _ => true | _ => false
  else none

/-- The meaning of the entry at an index, given a way of following its references. -/
def ofEntry (follow : Follow) (source : UInt16) : PoolEntry → Resolving Constant
  | .empty => return empty
  | .utf8 bytes =>
    match ModifiedUtf8.decode bytes with
    | some text => return utf8 text
    | none => fail source .encoding
  | .integer value => return integer value
  | .float bits => return float bits
  | .long value => return long value
  | .double bits => return double bits
  | .classRef name => return classRef (← followUtf8 follow source name)
  | .string text => return string (← followUtf8 follow source text)
  | .fieldref owner member => do
    let owner ← followClass follow source owner
    let (name, descriptor) ← followNameAndType follow source member
    return fieldref ⟨owner, name, ← fieldTypeOf source descriptor⟩
  | .methodref owner member => return methodref (← followMethod follow source owner member)
  | .interfaceMethodref owner member =>
    return interfaceMethodref (← followMethod follow source owner member)
  | .nameAndType name descriptor => do
    let name ← followUtf8 follow source name
    return nameAndType name (← followUtf8 follow source descriptor)
  | .methodHandle kind reference =>
    match handleAccepts kind with
    | none => fail source (.referenceKind kind)
    | some accepts => do
      if accepts (← follow reference) then return methodHandle kind reference
      else fail source (.referenceTarget reference kind)
  | .methodType descriptor => do
    let descriptor ← followUtf8 follow source descriptor
    return methodType (← signatureOf source descriptor)
  | .dynamic bootstrap member => do
    let (name, descriptor) ← followNameAndType follow source member
    return dynamic bootstrap name (← fieldTypeOf source descriptor)
  | .invokeDynamic bootstrap member => do
    let (name, descriptor) ← followNameAndType follow source member
    return invokeDynamic bootstrap name (← signatureOf source descriptor)
  | .moduleRef name => return moduleRef (← followUtf8 follow source name)
  | .packageRef name => return packageRef (← followUtf8 follow source name)

/-- The entry that an index names. -/
def entryFor (pool : Array PoolEntry) (index : UInt16) : Except ConstantFault PoolEntry :=
  if index = 0 then .error .zeroIndex
  else
    match entryAt? pool index with
    | none => .error (.outOfRange pool.size)
    | some .empty => .error .unusable
    | some entry => .ok entry

/-- The meaning of an entry, as it was found before, or else as it is found now by a way of
resolving the entry. An entry that is being resolved already is not resolved again. -/
def resolveOnce (index : UInt16) (resolveEntry : Resolving Constant) : Resolving Constant := do
  let position := index.toNat - 1
  match (← get).found? position with
  | some constant => return constant
  | none =>
    if (← get).visiting.contains index then
      fail index .cycle
    modify (Resolution.visit index)
    let constant ← resolveEntry
    modify (Resolution.settle index position constant)
    return constant

/-- The meaning of the entry at an index. No entry is being resolved twice at a time, so the size of
the pool bounds the depth. -/
def resolve (pool : Array PoolEntry) : (depth : Nat) → UInt16 → Resolving Constant
  | 0, index => fail index .cycle
  | depth + 1, index => do
    let entry ← Resolving.ofExcept index (entryFor pool index)
    resolveOnce index
      (ofEntry (fun target => Resolving.onBehalf index target (resolve pool depth target)) index
        entry)

/-- Resolves the entry at a position, unless it is a filler. -/
def resolveAt (pool : Array PoolEntry) (depth position : Nat) : Resolving Unit := do
  match pool[position]? with
  | none | some .empty => return
  | _ =>
    let _ ← resolve pool depth (UInt16.ofNat (position + 1))

/-- Resolves all entries of a pool in their order, with a bound on how deep references go. -/
def resolveWithin (pool : Array PoolEntry) (depth : Nat) : Except Error (Array Constant) := do
  let ((), resolution) ←
    ((List.range pool.size).forM (resolveAt pool depth)).run (.start pool.size)
  return resolution.found.map (·.getD empty)

/-- The meanings of all entries of a pool, or the first entry that has none. -/
def resolvePool (pool : Array PoolEntry) : Except Error (Array Constant) :=
  resolveWithin pool (pool.size + 1)

end Constant

end JavaMachine
