import JavaMachine.ClassFile.Basic
import JavaMachine.Error

/-! # Reading class files

A reader takes its part from the front of a byte sequence and leaves the rest. `ClassFile.read`
reads a complete file, checks that the indices it will be used with name entries of the pool, and
decodes the bodies of methods. It consults no other class and resolves no constant. -/

namespace JavaMachine

/-- A step of reading: it consumes bytes from the front or says what is wrong there. -/
abbrev Reader := StateT (List UInt8) (Except Malformation)

namespace Reader

/-- Stops at the current position. -/
def fail {α : Type} (fault : ReadFault) : Reader α :=
  fun bytes => .error (.unreadable fault bytes.length)

/-- One byte. -/
def u8 : Reader UInt8
  | byte :: rest => .ok (byte, rest)
  | bytes => fail .eof bytes

/-- A big-endian number of two bytes. -/
def u16 : Reader UInt16
  | a :: b :: rest => .ok (a.toUInt16 <<< 8 ||| b.toUInt16, rest)
  | bytes => fail .eof bytes

/-- A big-endian number of four bytes. -/
def u32 : Reader UInt32
  | a :: b :: c :: d :: rest =>
    .ok (a.toUInt32 <<< 24 ||| b.toUInt32 <<< 16 ||| c.toUInt32 <<< 8 ||| d.toUInt32, rest)
  | bytes => fail .eof bytes

/-- A big-endian number of eight bytes. -/
def u64 : Reader UInt64
  | a :: b :: c :: d :: e :: f :: g :: h :: rest =>
    .ok (a.toUInt64 <<< 56 ||| b.toUInt64 <<< 48 ||| c.toUInt64 <<< 40 ||| d.toUInt64 <<< 32
      ||| e.toUInt64 <<< 24 ||| f.toUInt64 <<< 16 ||| g.toUInt64 <<< 8 ||| h.toUInt64, rest)
  | bytes => fail .eof bytes

/-- The next `size` bytes. -/
def take (size : Nat) : Reader (List UInt8) := fun bytes =>
  let taken := bytes.take size
  if taken.length = size then .ok (taken, bytes.drop size) else fail .eof bytes

/-- Nothing may be left. -/
def atEnd : Reader Unit
  | [] => .ok ((), [])
  | bytes => fail .eof bytes

/-- A number of readings one after the other. -/
def times {α : Type} (item : Reader α) : Nat → Reader (List α)
  | 0 => return []
  | count + 1 => do
    let first ← item
    let rest ← times item count
    return first :: rest

/-- Readings one after the other, their number in front. -/
def counted {α : Type} (item : Reader α) : Reader (List α) := do
  let count ← u16
  times item count.toNat

end Reader

namespace PoolEntry

/-- One entry of a constant pool: its tag and what the tag asks for. -/
def read : Reader PoolEntry := do
  let tag ← Reader.u8
  match tag.toNat with
  | 1 => return utf8 (← Reader.take (← Reader.u16).toNat)
  | 3 => return integer (← Reader.u32).toInt32
  | 4 => return float (← Reader.u32)
  | 5 => return long (← Reader.u64).toInt64
  | 6 => return double (← Reader.u64)
  | 7 => return classRef (← Reader.u16)
  | 8 => return string (← Reader.u16)
  | 9 => return fieldref (← Reader.u16) (← Reader.u16)
  | 10 => return methodref (← Reader.u16) (← Reader.u16)
  | 11 => return interfaceMethodref (← Reader.u16) (← Reader.u16)
  | 12 => return nameAndType (← Reader.u16) (← Reader.u16)
  | 15 => return methodHandle (← Reader.u8) (← Reader.u16)
  | 16 => return methodType (← Reader.u16)
  | 17 => return dynamic (← Reader.u16) (← Reader.u16)
  | 18 => return invokeDynamic (← Reader.u16) (← Reader.u16)
  | 19 => return moduleRef (← Reader.u16)
  | 20 => return packageRef (← Reader.u16)
  | _ => Reader.fail .tag

/-- The entries that fill so many indices. A wide entry takes two and cannot start at the last. -/
def readMany : Nat → Reader (List PoolEntry)
  | 0 => return []
  | room + 1 => do
    let entry ← read
    if entry.isWide then
      match room with
      | 0 => Reader.fail .verify
      | room + 1 => return entry :: empty :: (← readMany room)
    else
      return entry :: (← readMany room)

/-- A constant pool. Its count includes the index zero, which no entry has. -/
def readPool : Reader (Array PoolEntry) := do
  let count ← Reader.u16
  if count = 0 then Reader.fail .verify
  else return (← readMany (count.toNat - 1)).toArray

end PoolEntry

namespace HandlerEntry

/-- A row of an exception table. -/
def read : Reader HandlerEntry :=
  return ⟨← Reader.u16, ← Reader.u16, ← Reader.u16, ← Reader.u16⟩

end HandlerEntry

namespace Attribute

/-- An attribute with its bytes as they stand. -/
def read : Reader Attribute :=
  return raw (← Reader.u16) (← Reader.take (← Reader.u32).toNat)

/-- The body of a method, from the whole content of its attribute. -/
def readBody : Reader (CodeBody Attribute) := do
  let maxStack ← Reader.u16
  let maxLocals ← Reader.u16
  let code ← Reader.take (← Reader.u32).toNat
  let handlers ← Reader.counted HandlerEntry.read
  let attributes ← Reader.counted read
  Reader.atEnd
  return ⟨maxStack, maxLocals, code, handlers, attributes⟩

end Attribute

namespace MemberEntry

/-- A field or a method. -/
def read : Reader MemberEntry :=
  return ⟨⟨← Reader.u16⟩, ← Reader.u16, ← Reader.u16, ← Reader.counted Attribute.read⟩

end MemberEntry

namespace ClassFile

/-- The magic number and the version, minor before major. -/
def readHeader : Reader (UInt16 × UInt16) := fun bytes =>
  if magic.isPrefixOf bytes then
    (do return (← Reader.u16, ← Reader.u16) : Reader (UInt16 × UInt16)) (bytes.drop magic.length)
  else Reader.fail .tag bytes

/-- The versions that can be read. -/
def supportsVersion (major : UInt16) : Bool :=
  45 ≤ major && major ≤ 69

/-- A file in which every attribute is raw and no index is checked. -/
def readRaw : Reader ClassFile := do
  let (minor, major) ← readHeader
  if !supportsVersion major then
    throw (.version major minor)
  let pool ← PoolEntry.readPool
  let flags ← Reader.u16
  let thisClass ← Reader.u16
  let superClass ← Reader.u16
  let interfaces ← Reader.counted Reader.u16
  let fields ← Reader.counted MemberEntry.read
  let methods ← Reader.counted MemberEntry.read
  let attributes ← Reader.counted Attribute.read
  Reader.atEnd
  return ⟨minor, major, pool, ⟨flags⟩, thisClass, superClass, interfaces, fields, methods,
    attributes⟩

/-- An index must name an entry that is not a filler. -/
def checkIndex (pool : Array PoolEntry) (role : String) (index : UInt16) :
    Except Malformation Unit :=
  match entryAt? pool index with
  | none | some .empty => .error (.poolIndex role index)
  | some _ => .ok ()

/-- The bytes of an attribute's name, which must be a text. -/
def attributeName (pool : Array PoolEntry) (item : Attribute) :
    Except Malformation (List UInt8) :=
  match entryAt? pool item.name with
  | some (.utf8 name) => .ok name
  | _ => .error (.attributeName item.name)

/-- Every attribute must have a name. -/
def checkAttributes (pool : Array PoolEntry) (attributes : List Attribute) :
    Except Malformation Unit :=
  attributes.forM fun item => discard (attributeName pool item)

/-- A member must have a name and a descriptor, and its attributes names. -/
def checkMember (pool : Array PoolEntry) (role : String) (member : MemberEntry) :
    Except Malformation Unit := do
  checkIndex pool (role ++ " name") member.name
  checkIndex pool (role ++ " descriptor") member.descriptor
  checkAttributes pool member.attributes

/-- The indices that name the class, its superclass if there is one, its interfaces, its members
and all attributes. -/
def checkIndices (file : ClassFile) : Except Malformation Unit := do
  checkIndex file.pool "this_class" file.thisClass
  if file.superClass != 0 then
    checkIndex file.pool "super_class" file.superClass
  file.interfaces.forM (checkIndex file.pool "interface")
  file.fields.forM (checkMember file.pool "field")
  file.methods.forM (checkMember file.pool "method")
  checkAttributes file.pool file.attributes

/-- The name of the attribute that holds the body of a method. -/
def codeName : List UInt8 :=
  "Code".toUTF8.toList

/-- Decodes the content of an attribute named `Code`; any other attribute stays raw. -/
def decodeAttribute (pool : Array PoolEntry) : Attribute → Except Malformation Attribute
  | .raw name info =>
    if entryAt? pool name = some (.utf8 codeName) then do
      let (body, _) ← Attribute.readBody info
      checkAttributes pool body.attributes
      return .code name body
    else .ok (.raw name info)
  | decoded => .ok decoded

/-- Decodes the bodies of the methods. -/
def decodeBodies (file : ClassFile) : Except Malformation ClassFile := do
  let methods ← file.methods.mapM fun method => do
    let attributes ← method.attributes.mapM (decodeAttribute file.pool)
    return { method with attributes }
  return { file with methods }

/-- The class file that a byte sequence is. -/
def read (bytes : List UInt8) : Except Malformation ClassFile := do
  let (file, _) ← readRaw bytes
  checkIndices file
  decodeBodies file

end ClassFile

end JavaMachine
