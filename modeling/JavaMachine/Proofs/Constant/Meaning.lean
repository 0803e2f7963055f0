import JavaMachine.Constant
import JavaMachine.Proofs.ClassFile.WellFormed

/-! # What the entries of a pool denote

Two readings of a constant pool that follow no order and keep no notes. `Constant.Resolvable` is the
least set of indices whose entries are sound and refer to resolvable entries of the right kind;
`Constant.Denotes` says which constant such an entry stands for. An index denotes at most one
constant, it denotes one exactly if it is resolvable, and no index that is reached from itself along
references denotes anything. -/

namespace JavaMachine

/-- The index names a class. -/
def NamesClass (pool : Array PoolEntry) (index : UInt16) : Prop :=
  ∃ name, entryAt? pool index = some (.classRef name)

/-- The index names a field of a class. -/
def NamesField (pool : Array PoolEntry) (index : UInt16) : Prop :=
  ∃ owner member, entryAt? pool index = some (.fieldref owner member)

/-- The index names a method of a class or of an interface. -/
def NamesMethod (pool : Array PoolEntry) (index : UInt16) : Prop :=
  ∃ owner member, entryAt? pool index = some (.methodref owner member) ∨
    entryAt? pool index = some (.interfaceMethodref owner member)

namespace PoolEntry

/-- The entry is complete without any other one. -/
def IsNumber : PoolEntry → Prop
  | integer _ | float _ | long _ | double _ => True
  | _ => False

/-- The text that a class, a string, a module or a package is named by. -/
def name? : PoolEntry → Option UInt16
  | classRef name | string name | moduleRef name | packageRef name => some name
  | _ => none

/-- The class and the member that a method is named by. -/
def method? : PoolEntry → Option (UInt16 × UInt16)
  | methodref owner member | interfaceMethodref owner member => some (owner, member)
  | _ => none

/-- The indices that an entry refers to. -/
def references : PoolEntry → List UInt16
  | classRef index | string index | moduleRef index | packageRef index => [index]
  | fieldref first second | methodref first second | interfaceMethodref first second => [first, second]
  | nameAndType first second => [first, second]
  | methodHandle _ index | methodType index | dynamic _ index | invokeDynamic _ index => [index]
  | empty | utf8 _ | integer _ | float _ | long _ | double _ => []

end PoolEntry

namespace Constant

/-- The index names a text, which is decoded. -/
def Spells (pool : Array PoolEntry) (index : UInt16) (text : String) : Prop :=
  ∃ bytes, entryAt? pool index = some (.utf8 bytes) ∧ ModifiedUtf8.decode bytes = some text

/-- The index names a name and a descriptor, the text of which is decoded. -/
def Describes (pool : Array PoolEntry) (index : UInt16) (text : String) : Prop :=
  ∃ name descriptor, entryAt? pool index = some (.nameAndType name descriptor) ∧
    Spells pool descriptor text

/-- The indices of entries that can be given a meaning: a text can be decoded; whatever an entry
refers to is there, is no filler, has a meaning itself and is of the kind required; descriptors are
ones of fields or of methods, as required; handles of the kinds from 1 to 4 refer to fields, those
of the kinds from 5 to 9 to methods. -/
inductive Resolvable (pool : Array PoolEntry) : UInt16 → Prop where
  | text {index : UInt16} {bytes : List UInt8} (found : entryAt? pool index = some (.utf8 bytes))
      (decodes : (ModifiedUtf8.decode bytes).isSome) : Resolvable pool index
  | number {index : UInt16} {entry : PoolEntry} (found : entryAt? pool index = some entry)
      (complete : entry.IsNumber) : Resolvable pool index
  | named {index name : UInt16} {entry : PoolEntry} (found : entryAt? pool index = some entry)
      (refers : entry.name? = some name) (text : NamesText pool name)
      (resolvable : Resolvable pool name) : Resolvable pool index
  | nameAndType {index name descriptor : UInt16}
      (found : entryAt? pool index = some (.nameAndType name descriptor))
      (nameText : NamesText pool name) (nameResolvable : Resolvable pool name)
      (descriptorText : NamesText pool descriptor)
      (descriptorResolvable : Resolvable pool descriptor) : Resolvable pool index
  | methodType {index descriptor : UInt16} {text : String}
      (found : entryAt? pool index = some (.methodType descriptor))
      (resolvable : Resolvable pool descriptor) (spells : Spells pool descriptor text)
      (parses : (MethodDescriptor.ofDescriptor? text).isSome) : Resolvable pool index
  | field {index owner member : UInt16} {text : String}
      (found : entryAt? pool index = some (.fieldref owner member))
      (ownerClass : NamesClass pool owner) (ownerResolvable : Resolvable pool owner)
      (memberResolvable : Resolvable pool member) (described : Describes pool member text)
      (parses : (FieldType.ofDescriptor? text).isSome) : Resolvable pool index
  | method {index owner member : UInt16} {entry : PoolEntry} {text : String}
      (found : entryAt? pool index = some entry) (refers : entry.method? = some (owner, member))
      (ownerClass : NamesClass pool owner) (ownerResolvable : Resolvable pool owner)
      (memberResolvable : Resolvable pool member) (described : Describes pool member text)
      (parses : (MethodDescriptor.ofDescriptor? text).isSome) : Resolvable pool index
  | dynamic {index bootstrap member : UInt16} {text : String}
      (found : entryAt? pool index = some (.dynamic bootstrap member))
      (resolvable : Resolvable pool member) (described : Describes pool member text)
      (parses : (FieldType.ofDescriptor? text).isSome) : Resolvable pool index
  | invokeDynamic {index bootstrap member : UInt16} {text : String}
      (found : entryAt? pool index = some (.invokeDynamic bootstrap member))
      (resolvable : Resolvable pool member) (described : Describes pool member text)
      (parses : (MethodDescriptor.ofDescriptor? text).isSome) : Resolvable pool index
  | fieldHandle {index reference : UInt16} {kind : UInt8}
      (found : entryAt? pool index = some (.methodHandle kind reference))
      (kinds : 1 ≤ kind ∧ kind ≤ 4) (target : NamesField pool reference)
      (resolvable : Resolvable pool reference) : Resolvable pool index
  | methodHandle {index reference : UInt16} {kind : UInt8}
      (found : entryAt? pool index = some (.methodHandle kind reference))
      (kinds : 5 ≤ kind ∧ kind ≤ 9) (target : NamesMethod pool reference)
      (resolvable : Resolvable pool reference) : Resolvable pool index

/-- A handle of a kind may refer to a constant. -/
def HandleTarget (kind : UInt8) : Constant → Prop
  | fieldref _ => 1 ≤ kind ∧ kind ≤ 4
  | methodref _ | interfaceMethodref _ => 5 ≤ kind ∧ kind ≤ 9
  | _ => False

/-- The constant that the entry at an index stands for, its references followed. -/
inductive Denotes (pool : Array PoolEntry) : UInt16 → Constant → Prop where
  | utf8 {index : UInt16} {bytes : List UInt8} {text : String}
      (found : entryAt? pool index = some (.utf8 bytes))
      (decodes : ModifiedUtf8.decode bytes = some text) : Denotes pool index (.utf8 text)
  | integer {index : UInt16} {value : Int32}
      (found : entryAt? pool index = some (.integer value)) : Denotes pool index (.integer value)
  | float {index : UInt16} {bits : UInt32}
      (found : entryAt? pool index = some (.float bits)) : Denotes pool index (.float bits)
  | long {index : UInt16} {value : Int64}
      (found : entryAt? pool index = some (.long value)) : Denotes pool index (.long value)
  | double {index : UInt16} {bits : UInt64}
      (found : entryAt? pool index = some (.double bits)) : Denotes pool index (.double bits)
  | classRef {index name : UInt16} {text : String}
      (found : entryAt? pool index = some (.classRef name))
      (named : Denotes pool name (.utf8 text)) : Denotes pool index (.classRef text)
  | string {index name : UInt16} {text : String}
      (found : entryAt? pool index = some (.string name))
      (named : Denotes pool name (.utf8 text)) : Denotes pool index (.string text)
  | moduleRef {index name : UInt16} {text : String}
      (found : entryAt? pool index = some (.moduleRef name))
      (named : Denotes pool name (.utf8 text)) : Denotes pool index (.moduleRef text)
  | packageRef {index name : UInt16} {text : String}
      (found : entryAt? pool index = some (.packageRef name))
      (named : Denotes pool name (.utf8 text)) : Denotes pool index (.packageRef text)
  | nameAndType {index first second : UInt16} {name descriptor : String}
      (found : entryAt? pool index = some (.nameAndType first second))
      (named : Denotes pool first (.utf8 name)) (described : Denotes pool second (.utf8 descriptor)) :
      Denotes pool index (.nameAndType name descriptor)
  | fieldref {index owner member : UInt16} {ownerName name descriptor : String} {type : FieldType}
      (found : entryAt? pool index = some (.fieldref owner member))
      (owned : Denotes pool owner (.classRef ownerName))
      (named : Denotes pool member (.nameAndType name descriptor))
      (parses : FieldType.ofDescriptor? descriptor = some type) :
      Denotes pool index (.fieldref ⟨ownerName, name, type⟩)
  | methodref {index owner member : UInt16} {ownerName name descriptor : String}
      {signature : MethodDescriptor} (found : entryAt? pool index = some (.methodref owner member))
      (owned : Denotes pool owner (.classRef ownerName))
      (named : Denotes pool member (.nameAndType name descriptor))
      (parses : MethodDescriptor.ofDescriptor? descriptor = some signature) :
      Denotes pool index (.methodref ⟨ownerName, name, descriptor, signature⟩)
  | interfaceMethodref {index owner member : UInt16} {ownerName name descriptor : String}
      {signature : MethodDescriptor}
      (found : entryAt? pool index = some (.interfaceMethodref owner member))
      (owned : Denotes pool owner (.classRef ownerName))
      (named : Denotes pool member (.nameAndType name descriptor))
      (parses : MethodDescriptor.ofDescriptor? descriptor = some signature) :
      Denotes pool index (.interfaceMethodref ⟨ownerName, name, descriptor, signature⟩)
  | methodHandle {index reference : UInt16} {kind : UInt8} {target : Constant}
      (found : entryAt? pool index = some (.methodHandle kind reference))
      (denoted : Denotes pool reference target) (accepted : HandleTarget kind target) :
      Denotes pool index (.methodHandle kind reference)
  | methodType {index descriptor : UInt16} {text : String} {signature : MethodDescriptor}
      (found : entryAt? pool index = some (.methodType descriptor))
      (described : Denotes pool descriptor (.utf8 text))
      (parses : MethodDescriptor.ofDescriptor? text = some signature) :
      Denotes pool index (.methodType signature)
  | dynamic {index bootstrap member : UInt16} {name descriptor : String} {type : FieldType}
      (found : entryAt? pool index = some (.dynamic bootstrap member))
      (named : Denotes pool member (.nameAndType name descriptor))
      (parses : FieldType.ofDescriptor? descriptor = some type) :
      Denotes pool index (.dynamic bootstrap name type)
  | invokeDynamic {index bootstrap member : UInt16} {name descriptor : String}
      {signature : MethodDescriptor}
      (found : entryAt? pool index = some (.invokeDynamic bootstrap member))
      (named : Denotes pool member (.nameAndType name descriptor))
      (parses : MethodDescriptor.ofDescriptor? descriptor = some signature) :
      Denotes pool index (.invokeDynamic bootstrap name signature)

/-! ## One entry -/

/-- What an entry stands for, given what indices denote. -/
def Means (denotes : UInt16 → Constant → Prop) : PoolEntry → Constant → Prop
  | .empty, _ => False
  | .utf8 bytes, constant =>
    ∃ text, ModifiedUtf8.decode bytes = some text ∧ constant = utf8 text
  | .integer value, constant => constant = integer value
  | .float bits, constant => constant = float bits
  | .long value, constant => constant = long value
  | .double bits, constant => constant = double bits
  | .classRef name, constant => ∃ text, denotes name (utf8 text) ∧ constant = classRef text
  | .string name, constant => ∃ text, denotes name (utf8 text) ∧ constant = string text
  | .moduleRef name, constant => ∃ text, denotes name (utf8 text) ∧ constant = moduleRef text
  | .packageRef name, constant => ∃ text, denotes name (utf8 text) ∧ constant = packageRef text
  | .nameAndType first second, constant => ∃ name, denotes first (utf8 name) ∧
    ∃ descriptor, denotes second (utf8 descriptor) ∧ constant = nameAndType name descriptor
  | .fieldref owner member, constant => ∃ ownerName, denotes owner (classRef ownerName) ∧
    ∃ named : String × String, denotes member (nameAndType named.1 named.2) ∧
      ∃ type, FieldType.ofDescriptor? named.2 = some type ∧
        constant = fieldref ⟨ownerName, named.1, type⟩
  | .methodref owner member, constant =>
    ∃ symbol, MeansMethod denotes owner member symbol ∧ constant = methodref symbol
  | .interfaceMethodref owner member, constant =>
    ∃ symbol, MeansMethod denotes owner member symbol ∧ constant = interfaceMethodref symbol
  | .methodHandle kind reference, constant => ∃ target, denotes reference target ∧
    HandleTarget kind target ∧ constant = methodHandle kind reference
  | .methodType descriptor, constant => ∃ text, denotes descriptor (utf8 text) ∧
    ∃ signature, MethodDescriptor.ofDescriptor? text = some signature ∧
      constant = methodType signature
  | .dynamic bootstrap member, constant =>
    ∃ named : String × String, denotes member (nameAndType named.1 named.2) ∧
      ∃ type, FieldType.ofDescriptor? named.2 = some type ∧
        constant = dynamic bootstrap named.1 type
  | .invokeDynamic bootstrap member, constant =>
    ∃ named : String × String, denotes member (nameAndType named.1 named.2) ∧
      ∃ signature, MethodDescriptor.ofDescriptor? named.2 = some signature ∧
        constant = invokeDynamic bootstrap named.1 signature
where
  /-- What a method reference stands for. -/
  MeansMethod (denotes : UInt16 → Constant → Prop) (owner member : UInt16)
      (symbol : MethodSymbol) : Prop :=
    ∃ ownerName, denotes owner (classRef ownerName) ∧
      ∃ named : String × String, denotes member (nameAndType named.1 named.2) ∧
        ∃ signature, MethodDescriptor.ofDescriptor? named.2 = some signature ∧
          symbol = ⟨ownerName, named.1, named.2, signature⟩

variable {pool : Array PoolEntry} {index : UInt16} {constant : Constant}

/-- An index denotes what its entry stands for. -/
theorem denotes_iff {entry : PoolEntry} (found : entryAt? pool index = some entry) :
    Denotes pool index constant ↔ Means (Denotes pool) entry constant := by
  constructor
  · intro denotes
    cases denotes with
    | utf8 found' decodes =>
      cases found.symm.trans found'
      exact ⟨_, decodes, rfl⟩
    | integer found' | float found' | long found' | double found' =>
      cases found.symm.trans found'
      rfl
    | classRef found' named | string found' named | moduleRef found' named
    | packageRef found' named =>
      cases found.symm.trans found'
      exact ⟨_, named, rfl⟩
    | nameAndType found' named described =>
      cases found.symm.trans found'
      exact ⟨_, named, _, described, rfl⟩
    | fieldref found' owned named parses =>
      cases found.symm.trans found'
      exact ⟨_, owned, (_, _), named, _, parses, rfl⟩
    | methodref found' owned named parses | interfaceMethodref found' owned named parses =>
      cases found.symm.trans found'
      exact ⟨_, ⟨_, owned, (_, _), named, _, parses, rfl⟩, rfl⟩
    | methodHandle found' denoted accepted =>
      cases found.symm.trans found'
      exact ⟨_, denoted, accepted, rfl⟩
    | methodType found' described parses =>
      cases found.symm.trans found'
      exact ⟨_, described, _, parses, rfl⟩
    | dynamic found' named parses | invokeDynamic found' named parses =>
      cases found.symm.trans found'
      exact ⟨(_, _), named, _, parses, rfl⟩
  · intro means
    cases entry with
    | empty => exact means.elim
    | utf8 bytes =>
      obtain ⟨text, decodes, rfl⟩ := means
      exact .utf8 found decodes
    | integer value => exact means ▸ .integer found
    | float bits => exact means ▸ .float found
    | long value => exact means ▸ .long found
    | double bits => exact means ▸ .double found
    | classRef name =>
      obtain ⟨text, named, rfl⟩ := means
      exact .classRef found named
    | string name =>
      obtain ⟨text, named, rfl⟩ := means
      exact .string found named
    | moduleRef name =>
      obtain ⟨text, named, rfl⟩ := means
      exact .moduleRef found named
    | packageRef name =>
      obtain ⟨text, named, rfl⟩ := means
      exact .packageRef found named
    | nameAndType first second =>
      obtain ⟨name, named, descriptor, described, rfl⟩ := means
      exact .nameAndType found named described
    | fieldref owner member =>
      obtain ⟨ownerName, owned, names, named, type, parses, rfl⟩ := means
      exact .fieldref found owned named parses
    | methodref owner member =>
      obtain ⟨_, ⟨ownerName, owned, names, named, signature, parses, rfl⟩, rfl⟩ := means
      exact .methodref found owned named parses
    | interfaceMethodref owner member =>
      obtain ⟨_, ⟨ownerName, owned, names, named, signature, parses, rfl⟩, rfl⟩ := means
      exact .interfaceMethodref found owned named parses
    | methodHandle kind reference =>
      obtain ⟨target, denoted, accepted, rfl⟩ := means
      exact .methodHandle found denoted accepted
    | methodType descriptor =>
      obtain ⟨text, described, signature, parses, rfl⟩ := means
      exact .methodType found described parses
    | dynamic bootstrap member =>
      obtain ⟨names, named, type, parses, rfl⟩ := means
      exact .dynamic found named parses
    | invokeDynamic bootstrap member =>
      obtain ⟨names, named, signature, parses, rfl⟩ := means
      exact .invokeDynamic found named parses

/-- What denotes something is an entry of the pool, and no filler. -/
theorem Denotes.namesEntry (denotes : Denotes pool index constant) : NamesEntry pool index := by
  cases denotes with
  | utf8 found | integer found | float found | long found | double found | classRef found
  | string found | moduleRef found | packageRef found | nameAndType found | fieldref found
  | methodref found | interfaceMethodref found | methodHandle found | methodType found
  | dynamic found | invokeDynamic found => exact ⟨_, found, nofun⟩

/-- A filler denotes nothing, and nothing denotes a filler. -/
theorem Denotes.ne_empty (denotes : Denotes pool index constant) : constant ≠ .empty := by
  cases denotes <;> exact nofun

/-! ## At most one constant -/

theorem Denotes.unique {constant' : Constant} (first : Denotes pool index constant)
    (second : Denotes pool index constant') : constant = constant' := by
  induction first generalizing constant' with
  | utf8 found decodes =>
    obtain ⟨text, decodes', rfl⟩ := (denotes_iff found).mp second
    rw [Option.some.inj (decodes.symm.trans decodes')]
  | integer found | float found | long found | double found =>
    exact ((denotes_iff found).mp second).symm
  | classRef found _ ih | string found _ ih | moduleRef found _ ih | packageRef found _ ih =>
    obtain ⟨text, named, rfl⟩ := (denotes_iff found).mp second
    cases ih named
    rfl
  | nameAndType found _ _ nameUnique descriptorUnique =>
    obtain ⟨name, named, descriptor, described, rfl⟩ := (denotes_iff found).mp second
    cases nameUnique named
    cases descriptorUnique described
    rfl
  | fieldref found _ _ parses ownerUnique memberUnique =>
    obtain ⟨_, owned, names, named, type, parses', rfl⟩ := (denotes_iff found).mp second
    cases ownerUnique owned
    cases memberUnique named
    rw [Option.some.inj (parses.symm.trans parses')]
  | methodref found _ _ parses ownerUnique memberUnique
  | interfaceMethodref found _ _ parses ownerUnique memberUnique =>
    obtain ⟨_, ⟨_, owned, names, named, signature, parses', rfl⟩, rfl⟩ :=
      (denotes_iff found).mp second
    cases ownerUnique owned
    cases memberUnique named
    rw [Option.some.inj (parses.symm.trans parses')]
  | methodHandle found _ _ _ =>
    obtain ⟨target, -, -, rfl⟩ := (denotes_iff found).mp second
    rfl
  | methodType found _ parses ih =>
    obtain ⟨text, described, signature, parses', rfl⟩ := (denotes_iff found).mp second
    cases ih described
    rw [Option.some.inj (parses.symm.trans parses')]
  | dynamic found _ parses ih | invokeDynamic found _ parses ih =>
    obtain ⟨names, named, type, parses', rfl⟩ := (denotes_iff found).mp second
    cases ih named
    rw [Option.some.inj (parses.symm.trans parses')]

/-! ## No reference in a circle -/

/-- The entry at an index refers to another index. -/
def RefersTo (pool : Array PoolEntry) (source target : UInt16) : Prop :=
  ∃ entry, entryAt? pool source = some entry ∧ target ∈ entry.references

/-- References away from what denotes something come to an end. -/
theorem Denotes.acc (denotes : Denotes pool index constant) :
    Acc (fun target source => RefersTo pool source target) index := by
  have ofReferences {source : UInt16} {entry : PoolEntry}
      (found : entryAt? pool source = some entry)
      (all : ∀ target ∈ entry.references,
        Acc (fun target source => RefersTo pool source target) target) :
      Acc (fun target source => RefersTo pool source target) source := by
    refine Acc.intro _ fun target refers => ?_
    obtain ⟨entry', found', member⟩ := refers
    cases found.symm.trans found'
    exact all target member
  induction denotes with
  | utf8 found | integer found | float found | long found | double found =>
    exact ofReferences found nofun
  | classRef found _ ih | string found _ ih | moduleRef found _ ih | packageRef found _ ih
  | methodHandle found _ _ ih | methodType found _ _ ih | dynamic found _ _ ih
  | invokeDynamic found _ _ ih =>
    exact ofReferences found (List.forall_mem_singleton.mpr ih)
  | nameAndType found _ _ first second | fieldref found _ _ _ first second
  | methodref found _ _ _ first second | interfaceMethodref found _ _ _ first second =>
    exact ofReferences found (List.forall_mem_cons.mpr ⟨first, List.forall_mem_singleton.mpr second⟩)

/-- What is reached from itself along references denotes nothing. -/
theorem not_denotes_of_cycle (cycle : Relation.TransGen (RefersTo pool) index index) :
    ¬ Denotes pool index constant := by
  intro denotes
  have ends : Acc (Relation.TransGen fun target source => RefersTo pool source target) index :=
    acc_transGen_iff.mpr denotes.acc
  have loop : Relation.TransGen (fun target source => RefersTo pool source target) index index :=
    Relation.transGen_swap.mpr cycle
  induction ends with
  | intro index _ ih => exact ih index loop cycle denotes loop

/-! ## Resolvable means denoting -/

theorem Denotes.namesText {text : String} (denotes : Denotes pool index (.utf8 text)) :
    NamesText pool index := by
  cases denotes with
  | utf8 found _ => exact ⟨_, found⟩

theorem Denotes.spells {text : String} (denotes : Denotes pool index (.utf8 text)) :
    Spells pool index text := by
  cases denotes with
  | utf8 found decodes => exact ⟨_, found, decodes⟩

theorem Denotes.namesClass {name : String} (denotes : Denotes pool index (.classRef name)) :
    NamesClass pool index := by
  cases denotes with
  | classRef found _ => exact ⟨_, found⟩

theorem Denotes.describes {name descriptor : String}
    (denotes : Denotes pool index (.nameAndType name descriptor)) :
    Describes pool index descriptor := by
  cases denotes with
  | nameAndType found _ described => exact ⟨_, _, found, described.spells⟩

/-- Handles refer to fields and methods, by their kinds. -/
theorem Denotes.resolvable_handle {kind : UInt8} {reference : UInt16}
    (found : entryAt? pool index = some (.methodHandle kind reference))
    (denotes : Denotes pool reference constant) (accepted : HandleTarget kind constant)
    (resolvable : Resolvable pool reference) : Resolvable pool index := by
  cases denotes with
  | fieldref target => exact .fieldHandle found accepted ⟨_, _, target⟩ resolvable
  | methodref target => exact .methodHandle found accepted ⟨_, _, .inl target⟩ resolvable
  | interfaceMethodref target => exact .methodHandle found accepted ⟨_, _, .inr target⟩ resolvable
  | _ => exact accepted.elim

theorem Denotes.resolvable (denotes : Denotes pool index constant) : Resolvable pool index := by
  induction denotes with
  | utf8 found decodes => exact .text found (Option.isSome_of_eq_some decodes)
  | integer found | float found | long found | double found => exact .number found trivial
  | classRef found named ih | string found named ih | moduleRef found named ih
  | packageRef found named ih => exact .named found rfl named.namesText ih
  | nameAndType found named described nameResolvable descriptorResolvable =>
    exact .nameAndType found named.namesText nameResolvable described.namesText
      descriptorResolvable
  | fieldref found owned named parses ownerResolvable memberResolvable =>
    exact .field found owned.namesClass ownerResolvable memberResolvable named.describes
      (Option.isSome_of_eq_some parses)
  | methodref found owned named parses ownerResolvable memberResolvable
  | interfaceMethodref found owned named parses ownerResolvable memberResolvable =>
    exact .method found rfl owned.namesClass ownerResolvable memberResolvable named.describes
      (Option.isSome_of_eq_some parses)
  | methodHandle found denoted accepted ih => exact denoted.resolvable_handle found accepted ih
  | methodType found described parses ih =>
    exact .methodType found ih described.spells (Option.isSome_of_eq_some parses)
  | dynamic found named parses ih =>
    exact .dynamic found ih named.describes (Option.isSome_of_eq_some parses)
  | invokeDynamic found named parses ih =>
    exact .invokeDynamic found ih named.describes (Option.isSome_of_eq_some parses)

/-- A text that denotes something denotes what it spells. -/
theorem Spells.denotes {text : String} (spells : Spells pool index text) :
    Denotes pool index (.utf8 text) := by
  obtain ⟨bytes, found, decodes⟩ := spells
  exact .utf8 found decodes

theorem Denotes.of_namesText (text : NamesText pool index) (denotes : Denotes pool index constant) :
    ∃ text, Denotes pool index (.utf8 text) := by
  obtain ⟨bytes, found⟩ := text
  obtain ⟨text, decodes, rfl⟩ := (denotes_iff found).mp denotes
  exact ⟨text, denotes⟩

theorem Denotes.of_namesClass (named : NamesClass pool index)
    (denotes : Denotes pool index constant) : ∃ name, Denotes pool index (.classRef name) := by
  obtain ⟨name, found⟩ := named
  obtain ⟨text, -, rfl⟩ := (denotes_iff found).mp denotes
  exact ⟨text, denotes⟩

theorem Denotes.of_describes {text : String} (described : Describes pool index text)
    (denotes : Denotes pool index constant) : ∃ name, Denotes pool index (.nameAndType name text) := by
  obtain ⟨first, second, found, spells⟩ := described
  obtain ⟨name, named, descriptor, spelled, rfl⟩ := (denotes_iff found).mp denotes
  cases spelled.unique spells.denotes
  exact ⟨name, denotes⟩

theorem Resolvable.denotes (resolvable : Resolvable pool index) :
    ∃ constant, Denotes pool index constant := by
  induction resolvable with
  | text found decodes =>
    obtain ⟨text, decodes⟩ := Option.isSome_iff_exists.mp decodes
    exact ⟨_, .utf8 found decodes⟩
  | @number _ entry found complete =>
    cases entry with
    | integer value => exact ⟨_, .integer found⟩
    | float bits => exact ⟨_, .float found⟩
    | long value => exact ⟨_, .long found⟩
    | double bits => exact ⟨_, .double found⟩
    | _ => exact complete.elim
  | @named _ _ entry found refers text _ ih =>
    obtain ⟨_, denoted⟩ := ih
    obtain ⟨_, named⟩ := denoted.of_namesText text
    cases entry with
    | classRef name => cases refers; exact ⟨_, .classRef found named⟩
    | string name => cases refers; exact ⟨_, .string found named⟩
    | moduleRef name => cases refers; exact ⟨_, .moduleRef found named⟩
    | packageRef name => cases refers; exact ⟨_, .packageRef found named⟩
    | _ => cases refers
  | nameAndType found nameText _ descriptorText _ nameDenotes descriptorDenotes =>
    obtain ⟨_, nameDenotes⟩ := nameDenotes
    obtain ⟨_, descriptorDenotes⟩ := descriptorDenotes
    obtain ⟨_, named⟩ := nameDenotes.of_namesText nameText
    obtain ⟨_, described⟩ := descriptorDenotes.of_namesText descriptorText
    exact ⟨_, .nameAndType found named described⟩
  | methodType found _ spells parses _ =>
    obtain ⟨signature, parses⟩ := Option.isSome_iff_exists.mp parses
    exact ⟨_, .methodType found spells.denotes parses⟩
  | field found ownerClass _ _ described parses ownerDenotes memberDenotes =>
    obtain ⟨_, ownerDenotes⟩ := ownerDenotes
    obtain ⟨_, memberDenotes⟩ := memberDenotes
    obtain ⟨_, owned⟩ := ownerDenotes.of_namesClass ownerClass
    obtain ⟨_, named⟩ := memberDenotes.of_describes described
    obtain ⟨type, parses⟩ := Option.isSome_iff_exists.mp parses
    exact ⟨_, .fieldref found owned named parses⟩
  | @method _ _ _ entry _ found refers ownerClass _ _ described parses ownerDenotes memberDenotes =>
    obtain ⟨_, ownerDenotes⟩ := ownerDenotes
    obtain ⟨_, memberDenotes⟩ := memberDenotes
    obtain ⟨_, owned⟩ := ownerDenotes.of_namesClass ownerClass
    obtain ⟨_, named⟩ := memberDenotes.of_describes described
    obtain ⟨signature, parses⟩ := Option.isSome_iff_exists.mp parses
    cases entry with
    | methodref owner member => cases refers; exact ⟨_, .methodref found owned named parses⟩
    | interfaceMethodref owner member =>
      cases refers
      exact ⟨_, .interfaceMethodref found owned named parses⟩
    | _ => cases refers
  | dynamic found _ described parses ih =>
    obtain ⟨_, denoted⟩ := ih
    obtain ⟨_, named⟩ := denoted.of_describes described
    obtain ⟨type, parses⟩ := Option.isSome_iff_exists.mp parses
    exact ⟨_, .dynamic found named parses⟩
  | invokeDynamic found _ described parses ih =>
    obtain ⟨_, denoted⟩ := ih
    obtain ⟨_, named⟩ := denoted.of_describes described
    obtain ⟨signature, parses⟩ := Option.isSome_iff_exists.mp parses
    exact ⟨_, .invokeDynamic found named parses⟩
  | fieldHandle found kinds target _ ih =>
    obtain ⟨owner, member, field⟩ := target
    obtain ⟨_, denoted⟩ := ih
    obtain ⟨_, -, _, -, _, -, rfl⟩ := (denotes_iff field).mp denoted
    exact ⟨_, .methodHandle found denoted kinds⟩
  | methodHandle found kinds target _ ih =>
    obtain ⟨owner, member, method⟩ := target
    obtain ⟨_, denoted⟩ := ih
    rcases method with method | method
    · obtain ⟨_, -, rfl⟩ := (denotes_iff method).mp denoted
      exact ⟨_, .methodHandle found denoted kinds⟩
    · obtain ⟨_, -, rfl⟩ := (denotes_iff method).mp denoted
      exact ⟨_, .methodHandle found denoted kinds⟩

/-- The resolvable indices are those that denote something. -/
theorem resolvable_iff : Resolvable pool index ↔ ∃ constant, Denotes pool index constant := by
  constructor
  · exact Resolvable.denotes
  · rintro ⟨constant, denotes⟩
    exact denotes.resolvable

end Constant

end JavaMachine
