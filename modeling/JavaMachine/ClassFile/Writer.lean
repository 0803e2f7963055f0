import JavaMachine.ClassFile.Basic

/-! # Writing class files

The bytes of a class file. Counts and lengths are computed from the data, and fillers after wide
constants are written as nothing, so that writing what was read gives back the bytes. -/

namespace JavaMachine

namespace Writer

/-- A number as two bytes, high byte first. -/
def u16 (value : UInt16) : List UInt8 :=
  [(value >>> 8).toUInt8, value.toUInt8]

/-- A number as four bytes, high byte first. -/
def u32 (value : UInt32) : List UInt8 :=
  [(value >>> 24).toUInt8, (value >>> 16).toUInt8, (value >>> 8).toUInt8, value.toUInt8]

/-- A number as eight bytes, high byte first. -/
def u64 (value : UInt64) : List UInt8 :=
  [(value >>> 56).toUInt8, (value >>> 48).toUInt8, (value >>> 40).toUInt8, (value >>> 32).toUInt8,
    (value >>> 24).toUInt8, (value >>> 16).toUInt8, (value >>> 8).toUInt8, value.toUInt8]

/-- Items one after the other, their number in front. -/
def counted {α : Type} (item : α → List UInt8) (items : List α) : List UInt8 :=
  u16 (UInt16.ofNat items.length) ++ items.flatMap item

/-- Bytes with their number in front, as four bytes. -/
def sized (bytes : List UInt8) : List UInt8 :=
  u32 (UInt32.ofNat bytes.length) ++ bytes

end Writer

namespace PoolEntry

open Writer in
/-- The bytes of an entry of a constant pool. -/
def write : PoolEntry → List UInt8
  | empty => []
  | utf8 bytes => 1 :: (u16 (UInt16.ofNat bytes.length) ++ bytes)
  | integer value => 3 :: u32 value.toUInt32
  | float bits => 4 :: u32 bits
  | long value => 5 :: u64 value.toUInt64
  | double bits => 6 :: u64 bits
  | classRef name => 7 :: u16 name
  | string text => 8 :: u16 text
  | fieldref owner member => 9 :: (u16 owner ++ u16 member)
  | methodref owner member => 10 :: (u16 owner ++ u16 member)
  | interfaceMethodref owner member => 11 :: (u16 owner ++ u16 member)
  | nameAndType name descriptor => 12 :: (u16 name ++ u16 descriptor)
  | methodHandle kind reference => 15 :: kind :: u16 reference
  | methodType descriptor => 16 :: u16 descriptor
  | dynamic bootstrap member => 17 :: (u16 bootstrap ++ u16 member)
  | invokeDynamic bootstrap member => 18 :: (u16 bootstrap ++ u16 member)
  | moduleRef name => 19 :: u16 name
  | packageRef name => 20 :: u16 name

end PoolEntry

namespace HandlerEntry

/-- The bytes of a row of an exception table. -/
def write (entry : HandlerEntry) : List UInt8 :=
  Writer.u16 entry.startPc ++ Writer.u16 entry.endPc ++ Writer.u16 entry.handlerPc
    ++ Writer.u16 entry.catchType

end HandlerEntry

namespace Attribute

/-- The bytes of an attribute. -/
def write : Attribute → List UInt8
  | raw name info => Writer.u16 name ++ Writer.sized info
  | code name ⟨maxStack, maxLocals, bytes, handlers, attributes⟩ =>
    Writer.u16 name ++ Writer.sized
      (Writer.u16 maxStack ++ Writer.u16 maxLocals ++ Writer.sized bytes
        ++ Writer.counted HandlerEntry.write handlers
        ++ Writer.u16 (UInt16.ofNat attributes.length)
        ++ writeAll attributes)
where
  /-- The bytes of attributes one after the other. -/
  writeAll : List Attribute → List UInt8
    | [] => []
    | first :: rest => write first ++ writeAll rest

end Attribute

namespace MemberEntry

/-- The bytes of a field or a method. -/
def write (member : MemberEntry) : List UInt8 :=
  Writer.u16 member.flags.bits ++ Writer.u16 member.name ++ Writer.u16 member.descriptor
    ++ Writer.counted Attribute.write member.attributes

end MemberEntry

namespace ClassFile

/-- The bytes of a constant pool, the number of its indices, zero included, in front. -/
def writePool (pool : Array PoolEntry) : List UInt8 :=
  Writer.u16 (UInt16.ofNat (pool.size + 1)) ++ pool.toList.flatMap PoolEntry.write

/-- The bytes of a class file. -/
def write (file : ClassFile) : List UInt8 :=
  magic ++ Writer.u16 file.minorVersion ++ Writer.u16 file.majorVersion
    ++ writePool file.pool
    ++ Writer.u16 file.flags.bits ++ Writer.u16 file.thisClass ++ Writer.u16 file.superClass
    ++ Writer.counted Writer.u16 file.interfaces
    ++ Writer.counted MemberEntry.write file.fields
    ++ Writer.counted MemberEntry.write file.methods
    ++ Writer.counted Attribute.write file.attributes

end ClassFile

end JavaMachine
