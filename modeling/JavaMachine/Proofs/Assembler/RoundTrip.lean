import JavaMachine.Assembler.Class
import JavaMachine.Proofs.Assembler.Code
import JavaMachine.Proofs.ClassFile.RoundTrip

/-! # Assembled classes can be read back

All indices in a class that is assembled name what they should, and its pool has fillers where they
belong. So its written form is read as the class again, if and only if the version is one that can
be read and every count and length fits the two bytes it is written in. Assembling checks this of
the pool and of code, but neither of texts nor of the other lists. -/

namespace JavaMachine

/-- The attribute of a method that was assembled: its body. -/
def Attribute.Assembled (pool : Array PoolEntry) : Attribute → Prop
  | raw _ _ => False
  | code name body => NamesCode pool name ∧ CodeBuilder.Finished body

section Growth

variable {before after : PoolBuilder}

theorem Attribute.Plain.of_le {item : Attribute} (plain : item.Plain before.entries)
    (grows : before ≤ after) : item.Plain after.entries :=
  ⟨plain.1, plain.2.of_le grows⟩

theorem Attribute.Assembled.of_le {item : Attribute} (assembled : item.Assembled before.entries)
    (grows : before ≤ after) : item.Assembled after.entries := by
  cases item with
  | raw => exact assembled.elim
  | code name body => exact ⟨assembled.1.of_le grows, assembled.2⟩

theorem MemberEntry.Laid.of_le {member : MemberEntry} {test test' : Attribute → Prop}
    (laid : member.Laid before.entries test) (grows : before ≤ after)
    (kept : ∀ item, test item → test' item) : member.Laid after.entries test' where
  name := laid.name.of_le grows
  descriptor := laid.descriptor.of_le grows
  attributeCount := laid.attributeCount
  attributes item among := kept item (laid.attributes item among)

end Growth

theorem FieldConstant.growing_index (value : FieldConstant) : PoolBuilder.Growing value.index := by
  cases value with
  | int value => exact (PoolBuilder.plain_integer value).growing
  | long value => exact (PoolBuilder.plain_long value).growing
  | float bits => exact PoolBuilder.growing_float bits
  | double bits => exact PoolBuilder.growing_double bits
  | string text => exact (PoolBuilder.plain_string text).growing

namespace ClassBuilder

variable {builder after : ClassBuilder}

/-- What the indices in a class under construction name. -/
structure Named (builder : ClassBuilder) : Prop where
  thisClass : NamesEntry builder.pool.entries builder.thisClass
  superClass : builder.superClass ≠ 0 → NamesEntry builder.pool.entries builder.superClass
  interfaces : ∀ index ∈ builder.interfaces, NamesEntry builder.pool.entries index
  fields : ∀ member ∈ builder.fields,
    member.Laid builder.pool.entries (·.Plain builder.pool.entries)
  methods : ∀ member ∈ builder.methods,
    member.Laid builder.pool.entries (·.Assembled builder.pool.entries)
  attributes : ∀ item ∈ builder.attributes, item.Plain builder.pool.entries

/-- A class under construction: fillers are where they belong, and as long as indices fit two bytes,
they name what they should. -/
structure Sound (builder : ClassBuilder) : Prop where
  spaced : PoolEntry.Spaced builder.pool.entries.toList
  named : builder.pool.Small → builder.Named

/-- A class stays sound while its pool grows. -/
theorem Sound.of_le {pool : PoolBuilder} (sound : builder.Sound) (grows : builder.pool ≤ pool) :
    Sound { builder with pool } where
  spaced := grows.spaced sound.spaced
  named small := by
    obtain ⟨thisClass, superClass, interfaces, fields, methods, attributes⟩ :=
      sound.named (small.of_le grows)
    exact ⟨thisClass.of_le grows, fun present => (superClass present).of_le grows,
      fun index among => (interfaces index among).of_le grows,
      fun member among => (fields member among).of_le grows fun _ plain => plain.of_le grows,
      fun member among =>
        (methods member among).of_le grows fun _ assembled => assembled.of_le grows,
      fun item among => (attributes item among).of_le grows⟩

/-- The pool after an action on it. -/
theorem Sound.inPool {α : Type} {action : PoolBuilding α} (sound : builder.Sound)
    (growing : PoolBuilder.Growing action) :
    Sound { builder with pool := (action builder.pool).2 } :=
  sound.of_le (growing builder.pool)

/-! ## Members -/

theorem Sound.push_interface {index : UInt16} (sound : builder.Sound)
    (names : builder.pool.Small → NamesEntry builder.pool.entries index) :
    Sound { builder with interfaces := builder.interfaces.push index } where
  spaced := sound.spaced
  named small :=
    { sound.named small with
      interfaces := Array.forall_mem_push.mpr ⟨names small, (sound.named small).interfaces⟩ }

theorem Sound.push_attribute {item : Attribute} (sound : builder.Sound)
    (plain : builder.pool.Small → item.Plain builder.pool.entries) :
    Sound { builder with attributes := builder.attributes.push item } where
  spaced := sound.spaced
  named small :=
    { sound.named small with
      attributes := Array.forall_mem_push.mpr ⟨plain small, (sound.named small).attributes⟩ }

theorem Sound.push_field {member : MemberEntry} (sound : builder.Sound)
    (laid : builder.pool.Small →
      member.Laid builder.pool.entries (·.Plain builder.pool.entries)) :
    Sound { builder with fields := builder.fields.push member } where
  spaced := sound.spaced
  named small :=
    { sound.named small with
      fields := Array.forall_mem_push.mpr ⟨laid small, (sound.named small).fields⟩ }

theorem Sound.push_method {member : MemberEntry} (sound : builder.Sound)
    (laid : builder.pool.Small →
      member.Laid builder.pool.entries (·.Assembled builder.pool.entries)) :
    Sound { builder with methods := builder.methods.push member } where
  spaced := sound.spaced
  named small :=
    { sound.named small with
      methods := Array.forall_mem_push.mpr ⟨laid small, (sound.named small).methods⟩ }

/-! ## Items -/

/-- The pool after two texts were added to it. -/
abbrev withTexts (pool : PoolBuilder) (name descriptor : String) : PoolBuilder :=
  (PoolBuilder.utf8 descriptor (PoolBuilder.utf8 name pool).2).2

theorem le_withTexts (pool : PoolBuilder) (name descriptor : String) :
    pool ≤ withTexts pool name descriptor :=
  (PoolBuilder.growing_utf8 name pool).trans (PoolBuilder.growing_utf8 descriptor _)

/-- The indices of a name and a descriptor that are added one after the other. -/
theorem names_withTexts {pool : PoolBuilder} {name descriptor : String}
    (small : (withTexts pool name descriptor).Small) :
    NamesText (withTexts pool name descriptor).entries (PoolBuilder.utf8 name pool).1 ∧
      NamesText (withTexts pool name descriptor).entries
        (PoolBuilder.utf8 descriptor (PoolBuilder.utf8 name pool).2).1 := by
  have grows := PoolBuilder.growing_utf8 descriptor (PoolBuilder.utf8 name pool).2
  have first : NamesText _ _ := ⟨_, PoolBuilder.entryAt?_utf8 name (small.of_le grows)⟩
  exact ⟨first.of_le grows, _, PoolBuilder.entryAt?_utf8 descriptor small⟩

theorem Sound.addField {flags : AccessFlags} {name descriptor : String}
    {attributes : List Attribute} (sound : builder.Sound) (few : attributes.length < 2 ^ 16)
    (plain : builder.pool.Small → ∀ item ∈ attributes, item.Plain builder.pool.entries)
    (ended : addField flags name descriptor attributes builder = .ok ((), after)) :
    after.Sound := by
  unfold ClassBuilder.addField at ended
  split at ended
  · cases ended
  · cases ended
    have grown := sound.of_le (le_withTexts builder.pool name descriptor)
    refine grown.push_field fun small => ?_
    have grows := le_withTexts builder.pool name descriptor
    obtain ⟨named, described⟩ := names_withTexts small
    exact ⟨named.namesEntry, described.namesEntry, few,
      fun item among => (plain (small.of_le grows) item among).of_le grows⟩

theorem Sound.addBodiless {flags : AccessFlags} {name descriptor : String} (sound : builder.Sound)
    (ended : addBodiless flags name descriptor builder = .ok ((), after)) : after.Sound := by
  unfold ClassBuilder.addBodiless at ended
  split at ended
  · cases ended
  · cases ended
    have grown := sound.of_le (le_withTexts builder.pool name descriptor)
    refine grown.push_method fun small => ?_
    obtain ⟨named, described⟩ := names_withTexts small
    exact ⟨named.namesEntry, described.namesEntry, Nat.two_pow_pos 16, nofun⟩

theorem encode_code : ModifiedUtf8.encode "Code" = ClassFile.codeName := by
  decide +kernel

theorem inPool_bind {α β : Type} {action : PoolBuilding α} {next : α → ClassAssembling β} :
    (inPool action >>= next) builder =
      next (action builder.pool).1 { builder with pool := (action builder.pool).2 } := rfl

theorem get_bind {β : Type} {next : ClassBuilder → ClassAssembling β} :
    (get >>= next) builder = next builder builder := rfl

/-- A method with a body, in a class that got this far. -/
theorem exists_of_addMethod {flags : AccessFlags} {name descriptor : String} {labels : Nat}
    {body : List CodeItem}
    (ended : addMethod flags name descriptor labels body builder = .ok ((), after)) :
    ∃ made pool, CodeBuilder.assemble
        (PoolBuilder.utf8 "Code" (withTexts builder.pool name descriptor)).2 flags.isStatic
        descriptor labels body = .ok (made, pool) ∧
      after = { builder with
        pool
        methods := builder.methods.push ⟨flags, (PoolBuilder.utf8 name builder.pool).1,
          (PoolBuilder.utf8 descriptor (PoolBuilder.utf8 name builder.pool).2).1,
          [.code (PoolBuilder.utf8 "Code" (withTexts builder.pool name descriptor)).1 made]⟩ } := by
  unfold addMethod at ended
  simp only [inPool_bind, get_bind] at ended
  cases assembled : CodeBuilder.assemble
      (PoolBuilder.utf8 "Code" (withTexts builder.pool name descriptor)).2 flags.isStatic
      descriptor labels body with
  | error fault =>
    simp only [assembled] at ended
    cases ended
  | ok made =>
    simp only [assembled] at ended
    cases ended
    exact ⟨made.1, made.2, rfl, rfl⟩

theorem Sound.addMethod {flags : AccessFlags} {name descriptor : String} {labels : Nat}
    {body : List CodeItem} (sound : builder.Sound)
    (ended : addMethod flags name descriptor labels body builder = .ok ((), after)) :
    after.Sound := by
  obtain ⟨made, pool, assembled, rfl⟩ := exists_of_addMethod ended
  obtain ⟨grows, finished⟩ := CodeBuilder.finished_of_assemble assembled
  have named := PoolBuilder.growing_utf8 "Code" (withTexts builder.pool name descriptor)
  have grown := sound.of_le ((le_withTexts builder.pool name descriptor).trans (named.trans grows))
  refine grown.push_method fun small => ?_
  have smaller := small.of_le grows
  obtain ⟨nameThere, descriptorThere⟩ := names_withTexts (smaller.of_le named)
  have code : NamesCode _ _ := encode_code ▸ PoolBuilder.entryAt?_utf8 "Code" smaller
  exact ⟨nameThere.namesEntry.of_le (named.trans grows),
    descriptorThere.namesEntry.of_le (named.trans grows),
    Nat.one_lt_two_pow (by decide), List.forall_mem_singleton.mpr ⟨code.of_le grows, finished⟩⟩

theorem sized_index (name index : UInt16) : (Attribute.raw name (Writer.u16 index)).Sized := by
  change 2 < 2 ^ 32
  decide

/-- **An item keeps a class sound.** -/
theorem sound_item {item : ClassItem} (sound : builder.Sound)
    (ended : ClassBuilder.item item builder = .ok ((), after)) : after.Sound := by
  cases item with
  | version major minor =>
    cases ended
    exact ⟨sound.spaced, fun small => { sound.named small with }⟩
  | flags flags =>
    cases ended
    exact ⟨sound.spaced, fun small => { sound.named small with }⟩
  | interface name =>
    cases ended
    exact (sound.inPool (PoolBuilder.growing_classRef name)).push_interface
      (PoolBuilder.namesEntry_classRef name)
  | sourceFile name =>
    cases ended
    have grown := sound.of_le (le_withTexts builder.pool "SourceFile" name)
    exact grown.push_attribute fun small => ⟨sized_index _ _, (names_withTexts small).1⟩
  | field flags name descriptor =>
    have none : ([] : List Attribute).length < 2 ^ 16 := Nat.two_pow_pos 16
    exact sound.addField none (fun _ _ among => absurd among List.not_mem_nil) ended
  | constantField flags name descriptor value =>
    have grown := (sound.inPool value.growing_index).inPool
      (PoolBuilder.growing_utf8 "ConstantValue")
    refine grown.addField (Nat.one_lt_two_pow (by decide)) (fun small => ?_) ended
    exact List.forall_mem_singleton.mpr
      ⟨sized_index _ _, _, PoolBuilder.entryAt?_utf8 "ConstantValue" small⟩
  | nativeMethod flags name descriptor => exact sound.addBodiless ended
  | abstractMethod flags name descriptor => exact sound.addBodiless ended
  | method flags name descriptor labels body => exact sound.addMethod ended

/-! ## The whole class -/

theorem sound_start (name : String) (superclass : Option String) :
    (start name superclass).Sound := by
  have named := PoolBuilder.growing_classRef name {}
  cases superclass with
  | none =>
    refine ⟨named.spaced PoolEntry.spaced_nil, fun small => ⟨?_, fun present => ?_, ?_, ?_, ?_, ?_⟩⟩
    · exact PoolBuilder.namesEntry_classRef name small
    · exact absurd rfl present
    all_goals exact fun _ among => absurd among (Array.not_mem_empty _)
  | some superclass =>
    have extended := PoolBuilder.growing_classRef superclass (PoolBuilder.classRef name {}).2
    refine ⟨(named.trans extended).spaced PoolEntry.spaced_nil,
      fun small => ⟨?_, fun _ => ?_, ?_, ?_, ?_, ?_⟩⟩
    · exact (PoolBuilder.namesEntry_classRef name (small.of_le extended)).of_le extended
    · exact PoolBuilder.namesEntry_classRef superclass small
    all_goals exact fun _ among => absurd among (Array.not_mem_empty _)

theorem sound_items {items : List ClassItem} (sound : builder.Sound)
    (ended : items.forM ClassBuilder.item builder = .ok ((), after)) : after.Sound := by
  rw [List.forM_eq_forM] at ended
  induction items generalizing builder with
  | nil =>
    cases ended
    exact sound
  | cons first rest ih =>
    rw [List.forM_cons] at ended
    obtain ⟨_, middle, began, ended⟩ := Assembling.exists_of_bind ended
    exact ih (sound_item sound began) ended

end ClassBuilder

/-- What assembling does not check of a class: that the length of each text and the number of
interfaces, members, attributes and handlers fit the two bytes they are written in. -/
structure ClassFile.Representable (file : ClassFile) : Prop where
  texts : ∀ entry ∈ file.pool, entry.Fits
  interfaces : file.interfaces.length < 2 ^ 16
  fields : file.fields.length < 2 ^ 16
  methods : file.methods.length < 2 ^ 16
  attributes : file.attributes.length < 2 ^ 16
  handlers : ∀ method ∈ file.methods, ∀ name body, .code name body ∈ method.attributes →
    body.handlers.length < 2 ^ 16

/-- The number of handlers in a body fits two bytes. -/
def Attribute.FewHandlers : Attribute → Prop
  | raw _ _ => True
  | code _ body => body.handlers.length < 2 ^ 16

instance : DecidablePred Attribute.FewHandlers
  | .raw _ _ => .isTrue trivial
  | .code _ body => inferInstanceAs (Decidable (body.handlers.length < 2 ^ 16))

theorem ClassFile.representable_iff {file : ClassFile} : file.Representable ↔
    (∀ entry ∈ file.pool.toList, entry.Fits) ∧ file.interfaces.length < 2 ^ 16 ∧
      file.fields.length < 2 ^ 16 ∧ file.methods.length < 2 ^ 16 ∧
      file.attributes.length < 2 ^ 16 ∧
      ∀ method ∈ file.methods, ∀ item ∈ method.attributes, item.FewHandlers := by
  constructor
  · intro ⟨texts, interfaces, fields, methods, attributes, handlers⟩
    refine ⟨fun entry among => texts entry (Array.mem_toList_iff.mp among), interfaces, fields,
      methods, attributes, fun method among item inside => ?_⟩
    cases item with
    | raw => trivial
    | code name body => exact handlers method among name body inside
  · intro ⟨texts, interfaces, fields, methods, attributes, handlers⟩
    exact ⟨fun entry among => texts entry (Array.mem_toList_iff.mpr among), interfaces, fields,
      methods, attributes, fun method among name body inside => handlers method among _ inside⟩

instance (file : ClassFile) : Decidable file.Representable :=
  decidable_of_iff' _ ClassFile.representable_iff

section Whole

variable {script : ClassScript} {file : ClassFile}

theorem ClassFile.WellFormed.representable (wellFormed : file.WellFormed) :
    file.Representable where
  texts := wellFormed.pool.fits
  interfaces := wellFormed.interfaceCount
  fields := wellFormed.fieldCount
  methods := wellFormed.methodCount
  attributes := wellFormed.attributeCount
  handlers method among _ _ inside :=
    ((wellFormed.methods method among).attributes _ inside).2.handlerCount

/-- A class that assembling gives is well formed if it can be represented. -/
theorem ClassScript.wellFormed_of_assemble (assembled : script.assemble = .ok file)
    (version : 45 ≤ file.majorVersion.toNat ∧ file.majorVersion.toNat ≤ 69)
    (representable : file.Representable) : file.WellFormed := by
  obtain ⟨⟨_, builder⟩, built, finished⟩ := Except.bind_eq_ok_iff.mp assembled
  have sound := ClassBuilder.sound_items (ClassBuilder.sound_start _ _) built
  change builder.finish = .ok file at finished
  unfold ClassBuilder.finish at finished
  split at finished
  · cases finished
  · next fits =>
    cases finished
    have small : builder.pool.Small := Nat.lt_of_not_le fits
    have named := sound.named small
    exact {
      oldest := version.1
      newest := version.2
      pool := ⟨small, sound.spaced, representable.texts⟩
      thisClass := named.thisClass
      superClass := named.superClass
      interfaceCount := representable.interfaces
      interfaces := fun index among => named.interfaces index (Array.mem_toList_iff.mp among)
      fieldCount := representable.fields
      fields := fun member among => named.fields member (Array.mem_toList_iff.mp among)
      methodCount := representable.methods
      methods := by
        intro member among
        have laid := named.methods member (Array.mem_toList_iff.mp among)
        refine ⟨laid.name, laid.descriptor, laid.attributeCount, fun item inside => ?_⟩
        have assembled := laid.attributes item inside
        cases item with
        | raw => exact assembled.elim
        | code name body =>
          exact ⟨assembled.1,
            assembled.2.wellFormed (representable.handlers member among name body inside)⟩
      attributeCount := representable.attributes
      attributes := fun item among => named.attributes item (Array.mem_toList_iff.mp among) }

/-- **What is assembled can be read back, unless something is too long.** The bytes of a class that
was assembled, of a version that can be read, are read as the class if and only if each text and
each list fits the two bytes of its length. -/
theorem ClassScript.read_write_iff (assembled : script.assemble = .ok file)
    (version : 45 ≤ file.majorVersion.toNat ∧ file.majorVersion.toNat ≤ 69) :
    ClassFile.read file.write = .ok file ↔ file.Representable := by
  constructor
  · intro found
    exact (ClassFile.wellFormed_and_write_of_read found).1.representable
  · intro representable
    exact (ClassScript.wellFormed_of_assemble assembled version representable).read_write

/-- A class with a constant, a native method, and a method with a handler of its own code. -/
def caughtScript : ClassScript where
  name := "A"
  superclass := some "B"
  items := [.interface "C", .constantField ⟨0x0018⟩ "c" "J" (.long 7), .sourceFile "A.java",
    .nativeMethod ⟨0x0009⟩ "n" "()V",
    .method ⟨0x0009⟩ "m" "()V" 3 [.handler 0 1 2 none, .bind 0, .plain 0x00, .bind 1, .plain 0xb1,
      .bind 2, .plain 0xbf]]

theorem read_write_caughtScript : ∃ file, caughtScript.assemble = .ok file ∧
    (45 ≤ file.majorVersion.toNat ∧ file.majorVersion.toNat ≤ 69) ∧
    (ClassFile.read file.write = .ok file ↔ file.Representable) := by
  have made : caughtScript.assemble.toOption.map ClassFile.majorVersion = some 52 := by
    decide +kernel
  cases assembled : caughtScript.assemble with
  | error fault =>
    rw [assembled] at made
    cases made
  | ok file =>
    rw [assembled] at made
    have version : 45 ≤ file.majorVersion.toNat ∧ file.majorVersion.toNat ≤ 69 := by
      rw [Option.some.inj made]
      decide
    exact ⟨file, rfl, version, ClassScript.read_write_iff assembled version⟩

/-- The class file of a class without superclass and members. -/
def memberless (name : String) : ClassFile where
  minorVersion := 0
  majorVersion := 52
  pool := #[.utf8 (ModifiedUtf8.encode name), .classRef 1]
  flags := ⟨0x0021⟩
  thisClass := 2
  superClass := 0
  interfaces := []
  fields := []
  methods := []
  attributes := []

theorem assemble_memberless (name : String) :
    (ClassScript.mk name none []).assemble = .ok (memberless name) := by
  have named : PoolBuilder.classRef name {} =
      (2, ⟨#[.utf8 (ModifiedUtf8.encode name), .classRef 1]⟩) := by
    simp [PoolBuilder.classRef, PoolBuilder.utf8, PoolBuilder.add, PoolEntry.same,
      PoolEntry.isWide, PoolBuilder.indexAt, Bind.bind, StateT.bind]
  have started : ClassBuilder.start name none =
      ⟨⟨#[.utf8 (ModifiedUtf8.encode name), .classRef 1]⟩, 0, 52, ⟨0x0021⟩, 2, 0, #[], #[], #[],
        #[]⟩ := by
    unfold ClassBuilder.start
    rw [named]
  change (ClassBuilder.start name none).finish = _
  rw [started]
  rfl

theorem length_encode_replicate (letters : Nat) :
    (ModifiedUtf8.encode (String.ofList (List.replicate letters 'a'))).length = letters := by
  have letter : (ModifiedUtf8.encodeChar 'a').length = 1 := by decide +kernel
  rw [ModifiedUtf8.encode, String.toList_ofList, List.length_flatMap, List.map_replicate, letter,
    List.sum_replicate_nat, Nat.mul_one]

/-- A class is assembled whose name does not fit the two bytes of its length, and it is not what its
written form is read as. -/
theorem assembles_longNamed : ∃ file,
    (ClassScript.mk (String.ofList (List.replicate 0x10000 'a')) none []).assemble = .ok file ∧
      file.majorVersion = 52 ∧ ClassFile.read file.write ≠ .ok file := by
  refine ⟨memberless _, assemble_memberless _, rfl, fun found => ?_⟩
  have texts := (ClassFile.wellFormed_and_write_of_read found).1.representable.texts
  have fits : (ModifiedUtf8.encode (String.ofList (List.replicate 0x10000 'a'))).length < 2 ^ 16 :=
    texts (.utf8 _) (List.mem_toArray.mpr List.mem_cons_self)
  rw [length_encode_replicate] at fits
  exact absurd fits (Nat.lt_irrefl _)

end Whole

end JavaMachine
