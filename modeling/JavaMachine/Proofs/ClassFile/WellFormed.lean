import JavaMachine.Proofs.ClassFile.Pool

/-! # Well-formed class files

The class files that have a written form. Whether a file is well formed is said without reading or
writing it, but for the size of a method body, which is the number of bytes that stand for it. The
conditions on attributes are a parameter of `ClassFile.Laid`: the same file is laid out with the
bodies of its methods as plain bytes before they are decoded, and with decoded bodies after it. -/

namespace JavaMachine

/-- The index names an entry of the pool that is no filler. -/
def NamesEntry (pool : Array PoolEntry) (index : UInt16) : Prop :=
  ∃ entry, entryAt? pool index = some entry ∧ entry ≠ .empty

/-- The index names a text of the pool. -/
def NamesText (pool : Array PoolEntry) (index : UInt16) : Prop :=
  ∃ bytes, entryAt? pool index = some (.utf8 bytes)

/-- The index names the text by which the bodies of methods are known. -/
def NamesCode (pool : Array PoolEntry) (index : UInt16) : Prop :=
  entryAt? pool index = some (.utf8 ClassFile.codeName)

theorem NamesCode.namesText {pool : Array PoolEntry} {index : UInt16}
    (code : NamesCode pool index) : NamesText pool index :=
  ⟨_, code⟩

/-- The bytes of a method body, as they stand in its attribute. -/
def CodeBody.write (body : CodeBody Attribute) : List UInt8 :=
  Writer.u16 body.maxStack ++ Writer.u16 body.maxLocals ++ Writer.sized body.code
    ++ Writer.counted HandlerEntry.write body.handlers
    ++ Writer.counted Attribute.write body.attributes

namespace Attribute

/-- An attribute whose bytes stand as they are and fit the four bytes of their number. -/
def Sized : Attribute → Prop
  | raw _ info => info.length < 2 ^ 32
  | code _ _ => False

/-- An attribute of a class, of a field or of a method body: named, and never decoded. -/
def Plain (pool : Array PoolEntry) (item : Attribute) : Prop :=
  item.Sized ∧ NamesText pool item.name

end Attribute

/-- A method body whose tables can be counted in two bytes and which fits the four bytes of its
size. -/
structure CodeBody.WellFormed (pool : Array PoolEntry) (body : CodeBody Attribute) : Prop where
  handlerCount : body.handlers.length < 2 ^ 16
  attributeCount : body.attributes.length < 2 ^ 16
  plain : ∀ item ∈ body.attributes, item.Plain pool
  size : body.write.length < 2 ^ 32

/-- An attribute of a method: decoded if and only if it is named as a body. -/
def Attribute.OfMethod (pool : Array PoolEntry) : Attribute → Prop
  | raw name info => (raw name info).Plain pool ∧ ¬ NamesCode pool name
  | code name body => NamesCode pool name ∧ body.WellFormed pool

/-- A field or a method with a name, a descriptor and attributes that pass a test. -/
structure MemberEntry.Laid (pool : Array PoolEntry) (test : Attribute → Prop)
    (member : MemberEntry) : Prop where
  name : NamesEntry pool member.name
  descriptor : NamesEntry pool member.descriptor
  attributeCount : member.attributes.length < 2 ^ 16
  attributes : ∀ item ∈ member.attributes, test item

namespace ClassFile

/-- A class file of a supported version in which every index that is checked names an entry, every
list can be counted in two bytes, and the attributes of methods pass a test. -/
structure Laid (ofMethod : Attribute → Prop) (file : ClassFile) : Prop where
  oldest : 45 ≤ file.majorVersion.toNat
  newest : file.majorVersion.toNat ≤ 69
  pool : PoolEntry.PoolWellFormed file.pool
  thisClass : NamesEntry file.pool file.thisClass
  superClass : file.superClass ≠ 0 → NamesEntry file.pool file.superClass
  interfaceCount : file.interfaces.length < 2 ^ 16
  interfaces : ∀ index ∈ file.interfaces, NamesEntry file.pool index
  fieldCount : file.fields.length < 2 ^ 16
  fields : ∀ member ∈ file.fields, member.Laid file.pool (·.Plain file.pool)
  methodCount : file.methods.length < 2 ^ 16
  methods : ∀ member ∈ file.methods, member.Laid file.pool ofMethod
  attributeCount : file.attributes.length < 2 ^ 16
  attributes : ∀ item ∈ file.attributes, item.Plain file.pool

/-- A class file that has a written form, its method bodies decoded. -/
def WellFormed (file : ClassFile) : Prop :=
  file.Laid (·.OfMethod file.pool)

end ClassFile

end JavaMachine
