import JavaMachine.ClassFile.Basic
import JavaMachine.ModifiedUtf8

/-! # Building constant pools

A pool grows at its end. Adding an entry that is there already gives the index it has, so that
each constant is stored once and an index, once given, keeps its meaning. -/

namespace JavaMachine

namespace PoolEntry

/-- Whether two entries count as the same constant. Floating-point constants are compared as
numbers: the two zeros are the same and no NaN is the same as anything. A filler is no constant. -/
def same : PoolEntry → PoolEntry → Bool
  | empty, _ => false
  | float left, float right => Float32.ofBits left == Float32.ofBits right
  | double left, double right => Float.ofBits left == Float.ofBits right
  | left, right => left == right

end PoolEntry

/-- A constant pool under construction. -/
structure PoolBuilder where
  entries : Array PoolEntry := #[]
  deriving Inhabited

/-- An action that may add to a pool. -/
abbrev PoolBuilding := StateM PoolBuilder

namespace PoolBuilder

/-- The index of an entry at a position. -/
def indexAt (position : Nat) : UInt16 :=
  UInt16.ofNat (position + 1)

/-- The index of an entry, which is added unless it is there. -/
def add (entry : PoolEntry) : PoolBuilding UInt16 := fun pool =>
  match pool.entries.findIdx? (PoolEntry.same · entry) with
  | some position => (indexAt position, pool)
  | none =>
    let index := indexAt pool.entries.size
    let entries := pool.entries.push entry
    (index, ⟨if entry.isWide then entries.push .empty else entries⟩)

def utf8 (text : String) : PoolBuilding UInt16 :=
  add (.utf8 (ModifiedUtf8.encode text))

def integer (value : Int32) : PoolBuilding UInt16 :=
  add (.integer value)

def float (bits : UInt32) : PoolBuilding UInt16 :=
  add (.float bits)

def long (value : Int64) : PoolBuilding UInt16 :=
  add (.long value)

def double (bits : UInt64) : PoolBuilding UInt16 :=
  add (.double bits)

def classRef (name : String) : PoolBuilding UInt16 := do
  add (.classRef (← utf8 name))

def string (text : String) : PoolBuilding UInt16 := do
  add (.string (← utf8 text))

def nameAndType (name descriptor : String) : PoolBuilding UInt16 := do
  let name ← utf8 name
  let descriptor ← utf8 descriptor
  add (.nameAndType name descriptor)

/-- The indices that a reference to a member of a class is made of. -/
def member (owner name descriptor : String) : PoolBuilding (UInt16 × UInt16) := do
  let owner ← classRef owner
  let nameAndType ← nameAndType name descriptor
  return (owner, nameAndType)

def fieldref (owner name descriptor : String) : PoolBuilding UInt16 := do
  let (owner, member) ← member owner name descriptor
  add (.fieldref owner member)

def methodref (owner name descriptor : String) : PoolBuilding UInt16 := do
  let (owner, member) ← member owner name descriptor
  add (.methodref owner member)

def interfaceMethodref (owner name descriptor : String) : PoolBuilding UInt16 := do
  let (owner, member) ← member owner name descriptor
  add (.interfaceMethodref owner member)

end PoolBuilder

end JavaMachine
