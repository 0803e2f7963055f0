import JavaMachine.Proofs.ClassFile.WellFormed

/-! # Reading class files before bodies are decoded

Reading without decoding inverts writing, and the checks of indices hold exactly of the files that
are laid out as they should be with every attribute plain. -/

namespace JavaMachine

open Reader

/-! ## Attributes and members -/

namespace Attribute

theorem writeAll_eq_flatMap (items : List Attribute) :
    write.writeAll items = items.flatMap write := by
  induction items with
  | nil => rfl
  | cons first rest ih => rw [write.writeAll, ih, List.flatMap_cons]

theorem write_code (name : UInt16) (body : CodeBody Attribute) :
    (code name body).write = Writer.u16 name ++ Writer.sized body.write := by
  obtain ⟨maxStack, maxLocals, bytes, handlers, attributes⟩ := body
  simp only [write, writeAll_eq_flatMap, CodeBody.write, Writer.counted, List.append_assoc]

theorem read_inverts : read.Inverts Sized write := by
  intro bytes item rest
  have content := @sized_inverts
  simp only [Inverts, bind_eq_ok] at content
  simp only [read, bind_eq_ok, u16_eq_ok, pure_eq_ok]
  constructor
  · rintro ⟨name, _, rfl, size, _, number, info, _, taken, rfl, rfl⟩
    obtain ⟨fits, rfl⟩ := (content _ _ _).mp ⟨size, _, number, taken⟩
    exact ⟨fits, by simp only [write, List.append_assoc]⟩
  · rintro ⟨fits, rfl⟩
    cases item with
    | raw name info =>
      obtain ⟨size, _, number, taken⟩ := (content _ _ rest).mpr ⟨fits, rfl⟩
      exact ⟨name, _, List.append_assoc .., size, _, number, info, rest, taken, rfl, rfl⟩
    | code => exact fits.elim

end Attribute

theorem HandlerEntry.read_inverts : read.Inverts (fun _ => True) write := by
  intro bytes entry rest
  simp only [read, bind_eq_ok, u16_eq_ok, pure_eq_ok, write, true_and]
  constructor
  · rintro ⟨_, _, rfl, _, _, rfl, _, _, rfl, _, _, rfl, rfl, rfl⟩
    simp only [List.append_assoc]
  · rintro rfl
    obtain ⟨start, stop, handler, catchType⟩ := entry
    exact ⟨start, _, by simp only [List.append_assoc], stop, _, rfl, handler, _, rfl, catchType,
      rest, rfl, rfl, rfl⟩

theorem MemberEntry.read_inverts :
    read.Inverts (fun member => member.attributes.length < 2 ^ 16 ∧
      ∀ item ∈ member.attributes, item.Sized) write := by
  intro bytes member rest
  simp only [read, bind_eq_ok, u16_eq_ok, Attribute.read_inverts.counted.eq_ok, pure_eq_ok, write]
  constructor
  · rintro ⟨_, _, rfl, _, _, rfl, _, _, rfl, _, _, ⟨valid, rfl⟩, rfl, rfl⟩
    exact ⟨valid, by simp only [List.append_assoc]⟩
  · rintro ⟨valid, rfl⟩
    obtain ⟨⟨flags⟩, name, descriptor, attributes⟩ := member
    exact ⟨flags, _, by simp only [List.append_assoc], name, _, rfl, descriptor, _, rfl, attributes,
      rest, ⟨valid, rfl⟩, rfl, rfl⟩

/-- A method body is read from its whole content. -/
theorem Attribute.readBody_eq_ok {bytes rest : List UInt8} {body : CodeBody Attribute} :
    readBody bytes = .ok (body, rest) ↔
      (body.code.length < 2 ^ 32 ∧ body.handlers.length < 2 ^ 16 ∧
        body.attributes.length < 2 ^ 16 ∧ ∀ item ∈ body.attributes, item.Sized) ∧
      bytes = body.write ∧ rest = [] := by
  have content := @sized_inverts
  simp only [Inverts, bind_eq_ok] at content
  simp only [readBody, bind_eq_ok, u16_eq_ok, pure_eq_ok, HandlerEntry.read_inverts.counted.eq_ok,
    Attribute.read_inverts.counted.eq_ok, atEnd_eq_ok, CodeBody.write]
  constructor
  · rintro ⟨_, _, rfl, _, _, rfl, size, _, number, code, _, taken, handlers, _, ⟨⟨few, -⟩, rfl⟩,
      attributes, _, ⟨⟨fewer, plain⟩, rfl⟩, _, _, ⟨rfl, rfl⟩, rfl, rfl⟩
    obtain ⟨fits, rfl⟩ := (content _ _ _).mp ⟨size, _, number, taken⟩
    exact ⟨⟨fits, few, fewer, plain⟩, by simp only [List.append_assoc, List.append_nil], rfl⟩
  · rintro ⟨⟨fits, few, fewer, plain⟩, rfl, rfl⟩
    obtain ⟨maxStack, maxLocals, code, handlers, attributes⟩ := body
    obtain ⟨size, _, number, taken⟩ := (content _ _ _).mpr ⟨fits, rfl⟩
    exact ⟨maxStack, _, by simp only [List.append_assoc], maxLocals, _, rfl, size, _, number, code,
      _, taken, handlers, _, ⟨⟨few, fun _ _ => trivial⟩, rfl⟩, attributes, [],
      ⟨⟨fewer, plain⟩, (List.append_nil _).symm⟩, ⟨⟩, [], ⟨rfl, rfl⟩, rfl, rfl⟩

/-! ## Whole files -/

namespace ClassFile

theorem readHeader_eq_ok {bytes rest : List UInt8} {minor major : UInt16} :
    readHeader bytes = .ok ((minor, major), rest) ↔
      bytes = magic ++ (Writer.u16 minor ++ (Writer.u16 major ++ rest)) := by
  unfold readHeader
  constructor
  · intro found
    split at found
    · next marked =>
      simp only [bind_eq_ok, u16_eq_ok, pure_eq_ok, Prod.mk.injEq] at found
      obtain ⟨_, _, behind, _, _, rfl, ⟨rfl, rfl⟩, rfl⟩ := found
      obtain ⟨others, rfl⟩ := List.isPrefixOf_iff_prefix.mp marked
      rw [List.drop_left] at behind
      rw [behind]
    · cases found
  · rintro rfl
    rw [if_pos (List.isPrefixOf_iff_prefix.mpr (List.prefix_append ..)), List.drop_left]
    simp only [bind_eq_ok, u16_eq_ok, pure_eq_ok, Prod.mk.injEq]
    exact ⟨minor, _, rfl, major, _, rfl, ⟨rfl, rfl⟩, rfl⟩

theorem supportsVersion_iff {major : UInt16} :
    supportsVersion major ↔ 45 ≤ major.toNat ∧ major.toNat ≤ 69 := by
  simp only [supportsVersion, Bool.and_eq_true, decide_eq_true_eq, UInt16.le_iff_toNat_le]
  rfl

/-- A file without any decoded body, whose lists can be counted. -/
structure Countable (file : ClassFile) : Prop where
  version : supportsVersion file.majorVersion
  pool : PoolEntry.PoolWellFormed file.pool
  interfaceCount : file.interfaces.length < 2 ^ 16
  fieldCount : file.fields.length < 2 ^ 16
  fields : ∀ member ∈ file.fields, member.attributes.length < 2 ^ 16 ∧
    ∀ item ∈ member.attributes, item.Sized
  methodCount : file.methods.length < 2 ^ 16
  methods : ∀ member ∈ file.methods, member.attributes.length < 2 ^ 16 ∧
    ∀ item ∈ member.attributes, item.Sized
  attributeCount : file.attributes.length < 2 ^ 16
  attributes : ∀ item ∈ file.attributes, item.Sized

/-- Reading without decoding takes exactly the written forms of files without decoded bodies. -/
theorem readRaw_eq_ok {bytes rest : List UInt8} {file : ClassFile} :
    readRaw bytes = .ok (file, rest) ↔ file.Countable ∧ bytes = file.write ∧ rest = [] := by
  simp only [readRaw, bind_eq_ok]
  constructor
  · rintro ⟨⟨minor, major⟩, _, header, found⟩
    obtain rfl := readHeader_eq_ok.mp header
    dsimp only at found
    split at found
    · obtain ⟨_, _, refused, -⟩ := bind_eq_ok.mp found
      exact absurd refused throw_ne_ok
    · next supported =>
      simp only [bind_eq_ok, PoolEntry.readPool_inverts.eq_ok, u16_eq_ok,
        u16_inverts.counted.eq_ok, MemberEntry.read_inverts.counted.eq_ok,
        Attribute.read_inverts.counted.eq_ok, atEnd_eq_ok, pure_eq_ok] at found
      obtain ⟨pool, _, ⟨poolFits, rfl⟩, flags, _, rfl, thisClass, _, rfl, superClass, _, rfl,
        interfaces, _, ⟨⟨interfaceCount, -⟩, rfl⟩, fields, _, ⟨⟨fieldCount, fieldsFit⟩, rfl⟩,
        methods, _, ⟨⟨methodCount, methodsFit⟩, rfl⟩, attributes, _,
        ⟨⟨attributeCount, sized⟩, rfl⟩, _, _, ⟨rfl, rfl⟩, rfl, rfl⟩ := found
      refine ⟨⟨by simpa using supported, poolFits, interfaceCount, fieldCount, fieldsFit,
        methodCount, methodsFit, attributeCount, sized⟩, ?_, rfl⟩
      simp only [write, List.append_assoc, List.append_nil]
  · rintro ⟨countable, rfl, rfl⟩
    obtain ⟨minor, major, pool, ⟨flags⟩, thisClass, superClass, interfaces, fields, methods,
      attributes⟩ := file
    simp only [write, List.append_assoc]
    refine ⟨⟨minor, major⟩, _, readHeader_eq_ok.mpr rfl, ?_⟩
    have supported : ¬ (!supportsVersion major) = true := by simpa using countable.version
    rw [if_neg supported]
    simp only [bind_eq_ok, PoolEntry.readPool_inverts.eq_ok, u16_eq_ok,
      u16_inverts.counted.eq_ok, MemberEntry.read_inverts.counted.eq_ok,
      Attribute.read_inverts.counted.eq_ok, atEnd_eq_ok, pure_eq_ok]
    exact ⟨pool, _, ⟨countable.pool, rfl⟩, flags, _, rfl, thisClass, _, rfl, superClass, _, rfl,
      interfaces, _, ⟨⟨countable.interfaceCount, fun _ _ => trivial⟩, rfl⟩,
      fields, _, ⟨⟨countable.fieldCount, countable.fields⟩, rfl⟩,
      methods, _, ⟨⟨countable.methodCount, countable.methods⟩, rfl⟩,
      attributes, [], ⟨⟨countable.attributeCount, countable.attributes⟩, (List.append_nil _).symm⟩,
      ⟨⟩, [], ⟨rfl, rfl⟩, rfl, rfl⟩

end ClassFile

end JavaMachine
