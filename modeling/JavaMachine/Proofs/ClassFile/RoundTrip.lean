import JavaMachine.Proofs.ClassFile.Raw
import JavaMachine.Proofs.Except

/-! # Reading and writing class files are inverse

The files that a byte sequence can be read as are the well-formed ones, and each of them has exactly
one written form: what it was read from (`ClassFile.read_eq_ok_iff_wellFormed`). -/

namespace JavaMachine

open Except

/-! ## The checks of indices -/

namespace ClassFile

theorem checkIndex_eq_ok {pool : Array PoolEntry} {role : String} {index : UInt16} :
    checkIndex pool role index = .ok () ↔ NamesEntry pool index := by
  unfold checkIndex NamesEntry
  split
  · next absent => simp [absent]
  · next filler => simp [filler]
  · next entry present named =>
    simp only [named, true_iff]
    exact ⟨entry, rfl, present⟩

theorem checkAttributes_eq_ok {pool : Array PoolEntry} {items : List Attribute} :
    checkAttributes pool items = .ok () ↔ ∀ item ∈ items, NamesText pool item.name := by
  unfold checkAttributes
  rw [forM_eq_ok_iff]
  refine forall₂_congr fun item _ => ?_
  unfold attributeName NamesText
  split
  · next text named =>
    rw [named]
    exact ⟨fun _ => ⟨text, rfl⟩, fun _ => rfl⟩
  · next other =>
    constructor
    · intro ended
      cases ended
    · rintro ⟨text, named⟩
      exact absurd named (other text)

theorem checkMember_eq_ok {pool : Array PoolEntry} {role : String} {member : MemberEntry} :
    checkMember pool role member = .ok () ↔ NamesEntry pool member.name ∧
      NamesEntry pool member.descriptor ∧
      ∀ item ∈ member.attributes, NamesText pool item.name := by
  simp only [checkMember, check_bind_eq_ok_iff, checkIndex_eq_ok, checkAttributes_eq_ok]

/-- A member can be read without decoding, and passes the check, exactly if it is laid out with
plain attributes. -/
theorem memberLaid_plain_iff {pool : Array PoolEntry} (role : String) {member : MemberEntry} :
    member.Laid pool (·.Plain pool) ↔
      (member.attributes.length < 2 ^ 16 ∧ ∀ item ∈ member.attributes, item.Sized) ∧
        checkMember pool role member = .ok () := by
  rw [checkMember_eq_ok]
  constructor
  · intro laid
    exact ⟨⟨laid.attributeCount, fun item among => (laid.attributes item among).1⟩,
      laid.name, laid.descriptor, fun item among => (laid.attributes item among).2⟩
  · rintro ⟨⟨count, sized⟩, name, descriptor, named⟩
    exact ⟨name, descriptor, count, fun item among => ⟨sized item among, named item among⟩⟩

theorem checkIndices_eq_ok {file : ClassFile} :
    file.checkIndices = .ok () ↔ NamesEntry file.pool file.thisClass ∧
      (file.superClass ≠ 0 → NamesEntry file.pool file.superClass) ∧
      (∀ index ∈ file.interfaces, NamesEntry file.pool index) ∧
      (∀ member ∈ file.fields, checkMember file.pool "field" member = .ok ()) ∧
      (∀ member ∈ file.methods, checkMember file.pool "method" member = .ok ()) ∧
      ∀ item ∈ file.attributes, NamesText file.pool item.name := by
  unfold checkIndices
  rw [check_bind_eq_ok_iff, checkIndex_eq_ok]
  by_cases root : file.superClass = 0
  · simp only [root, bne_self_eq_false, Bool.false_eq_true, ↓reduceIte, check_bind_eq_ok_iff,
      forM_eq_ok_iff, checkIndex_eq_ok, checkAttributes_eq_ok, ne_eq, not_true_eq_false,
      false_implies, true_and]
  · simp only [bne_iff_ne.mpr root, ↓reduceIte, check_bind_eq_ok_iff, forM_eq_ok_iff,
      checkIndex_eq_ok, checkAttributes_eq_ok, ne_eq, root, not_false_eq_true, true_implies]

/-- A file can be read without decoding, and passes the checks, exactly if it is laid out with plain
attributes everywhere. -/
theorem laid_plain_iff {file : ClassFile} :
    file.Laid (·.Plain file.pool) ↔ file.Countable ∧ file.checkIndices = .ok () := by
  rw [checkIndices_eq_ok]
  constructor
  · intro laid
    have fields := fun member among =>
      (memberLaid_plain_iff "field").mp (laid.fields member among)
    have methods := fun member among =>
      (memberLaid_plain_iff "method").mp (laid.methods member among)
    refine ⟨?_, laid.thisClass, laid.superClass, laid.interfaces,
      fun member among => (fields member among).2, fun member among => (methods member among).2,
      fun item among => (laid.attributes item among).2⟩
    exact ⟨supportsVersion_iff.mpr ⟨laid.oldest, laid.newest⟩, laid.pool, laid.interfaceCount,
      laid.fieldCount, fun member among => (fields member among).1,
      laid.methodCount, fun member among => (methods member among).1,
      laid.attributeCount, fun item among => (laid.attributes item among).1⟩
  · rintro ⟨countable, thisClass, superClass, interfaces, fields, methods, attributes⟩
    obtain ⟨oldest, newest⟩ := supportsVersion_iff.mp countable.version
    exact ⟨oldest, newest, countable.pool, thisClass, superClass, countable.interfaceCount,
      interfaces, countable.fieldCount,
      fun member among => (memberLaid_plain_iff "field").mpr
        ⟨countable.fields member among, fields member among⟩,
      countable.methodCount,
      fun member among => (memberLaid_plain_iff "method").mpr
        ⟨countable.methods member among, methods member among⟩,
      countable.attributeCount,
      fun item among => ⟨countable.attributes item among, attributes item among⟩⟩

end ClassFile

/-! ## Decoding method bodies -/

namespace Attribute

/-- An attribute as it is read before bodies are decoded. -/
def flatten : Attribute → Attribute
  | raw name info => raw name info
  | code name body => raw name body.write

theorem write_flatten (item : Attribute) : item.flatten.write = item.write := by
  cases item with
  | raw name info => rfl
  | code name body => rw [flatten, write_code, write]

end Attribute

theorem CodeBody.length_code_le (body : CodeBody Attribute) :
    body.code.length ≤ body.write.length := by
  simp only [write, Writer.sized, List.length_append]
  omega

namespace ClassFile

/-- Decoding turns the plain attributes of a method into what stands for them in a well-formed
file. -/
theorem decodeAttribute_eq_ok {pool : Array PoolEntry} {item decoded : Attribute} :
    item.Plain pool ∧ decodeAttribute pool item = .ok decoded ↔
      decoded.OfMethod pool ∧ item = decoded.flatten := by
  constructor
  · rintro ⟨⟨sized, named⟩, ended⟩
    cases item with
    | code => exact sized.elim
    | raw name info =>
      unfold decodeAttribute at ended
      dsimp only at ended
      split at ended
      · next isCode =>
        rw [bind_eq_ok_iff] at ended
        obtain ⟨⟨body, rest⟩, found, ended⟩ := ended
        obtain ⟨⟨-, handlers, attributes, plain⟩, rfl, rfl⟩ :=
          Attribute.readBody_eq_ok.mp found
        rw [check_bind_eq_ok_iff, checkAttributes_eq_ok, pure_eq_ok_iff] at ended
        obtain ⟨names, rfl⟩ := ended
        exact ⟨⟨isCode, handlers, attributes,
          fun item among => ⟨plain item among, names item among⟩, sized⟩, rfl⟩
      · next notCode =>
        obtain rfl := Except.ok.inj ended
        exact ⟨⟨⟨sized, named⟩, notCode⟩, rfl⟩
  · rintro ⟨valid, rfl⟩
    cases decoded with
    | raw name info =>
      obtain ⟨plain, notCode⟩ := valid
      exact ⟨plain, if_neg notCode⟩
    | code name body =>
      obtain ⟨isCode, wellFormed⟩ := valid
      refine ⟨⟨wellFormed.size, isCode.namesText⟩, ?_⟩
      have codeFits := Nat.lt_of_le_of_lt body.length_code_le wellFormed.size
      have found : Attribute.readBody body.write = .ok (body, []) :=
        Attribute.readBody_eq_ok.mpr ⟨⟨codeFits, wellFormed.handlerCount,
          wellFormed.attributeCount, fun item among => (wellFormed.plain item among).1⟩, rfl, rfl⟩
      refine (if_pos isCode).trans ?_
      rw [bind_eq_ok_iff]
      refine ⟨(body, []), found, ?_⟩
      rw [check_bind_eq_ok_iff, checkAttributes_eq_ok]
      exact ⟨fun item among => (wellFormed.plain item among).2, rfl⟩

end ClassFile

/-- A method as it is read before bodies are decoded. -/
def MemberEntry.flatten (member : MemberEntry) : MemberEntry :=
  { member with attributes := member.attributes.map Attribute.flatten }

theorem MemberEntry.write_flatten (member : MemberEntry) : member.flatten.write = member.write := by
  simp only [write, flatten, Writer.counted, List.length_map, List.flatMap_map,
    Attribute.write_flatten]

namespace ClassFile

/-- A file as it is read before bodies are decoded. -/
def flatten (file : ClassFile) : ClassFile :=
  { file with methods := file.methods.map MemberEntry.flatten }

theorem write_flatten (file : ClassFile) : file.flatten.write = file.write := by
  simp only [write, flatten, Writer.counted, List.length_map, List.flatMap_map,
    MemberEntry.write_flatten]

/-- Decoding the attributes of a method leaves the rest of it alone. -/
theorem decodeMethod_eq_ok {pool : Array PoolEntry} {method decoded : MemberEntry} :
    method.Laid pool (·.Plain pool) ∧
        (do return { method with attributes := ← method.attributes.mapM (decodeAttribute pool) } :
          Except Malformation MemberEntry) = .ok decoded ↔
      decoded.Laid pool (·.OfMethod pool) ∧ method = decoded.flatten := by
  have attributes := @mapM_eq_ok_iff_of_undone _ _ _ (decodeAttribute pool) Attribute.flatten
    (·.Plain pool) (·.OfMethod pool) fun _ _ => decodeAttribute_eq_ok
  simp only [bind_eq_ok_iff, pure_eq_ok_iff]
  constructor
  · rintro ⟨laid, items, ended, rfl⟩
    obtain ⟨valid, same⟩ := attributes.mp ⟨laid.attributes, ended⟩
    refine ⟨⟨laid.name, laid.descriptor, ?_, valid⟩, ?_⟩
    · simpa only [same, List.length_map] using laid.attributeCount
    · rw [MemberEntry.flatten, ← same]
  · rintro ⟨laid, rfl⟩
    obtain ⟨plain, ended⟩ := attributes.mpr ⟨laid.attributes, rfl⟩
    refine ⟨⟨laid.name, laid.descriptor, ?_, plain⟩, decoded.attributes, ended, rfl⟩
    simpa only [MemberEntry.flatten, List.length_map] using laid.attributeCount

/-- Decoding the bodies of a file that is laid out with plain attributes gives a well-formed file,
and it gives every well-formed file. -/
theorem decodeBodies_eq_ok {file decoded : ClassFile} :
    file.Laid (·.Plain file.pool) ∧ file.decodeBodies = .ok decoded ↔
      decoded.WellFormed ∧ file = decoded.flatten := by
  simp only [decodeBodies, bind_eq_ok_iff, pure_eq_ok_iff]
  constructor
  · rintro ⟨laid, methods, ended, rfl⟩
    obtain ⟨valid, same⟩ := (mapM_eq_ok_iff_of_undone fun _ _ => decodeMethod_eq_ok).mp
      ⟨laid.methods, ended⟩
    refine ⟨{ laid with methodCount := ?_, methods := valid }, ?_⟩
    · simpa only [same, List.length_map] using laid.methodCount
    · rw [flatten, ← same]
  · rintro ⟨wellFormed, rfl⟩
    obtain ⟨plain, ended⟩ := (mapM_eq_ok_iff_of_undone fun _ _ => decodeMethod_eq_ok).mpr
      ⟨wellFormed.methods, rfl⟩
    refine ⟨{ wellFormed with methodCount := ?_, methods := plain }, decoded.methods, ended, rfl⟩
    simpa only [flatten, List.length_map] using wellFormed.methodCount

/-! ## The round trip -/

/-- Reading is done in three passes. -/
theorem read_eq_ok {bytes : List UInt8} {file : ClassFile} :
    read bytes = .ok file ↔ ∃ plain rest, readRaw bytes = .ok (plain, rest) ∧
      plain.checkIndices = .ok () ∧ plain.decodeBodies = .ok file := by
  unfold read
  rw [bind_eq_ok_iff]
  constructor
  · rintro ⟨⟨plain, rest⟩, found, ended⟩
    exact ⟨plain, rest, found, check_bind_eq_ok_iff.mp ended⟩
  · rintro ⟨plain, rest, found, ended⟩
    exact ⟨⟨plain, rest⟩, found, check_bind_eq_ok_iff.mpr ended⟩

theorem wellFormed_and_write_of_read {bytes : List UInt8} {file : ClassFile}
    (found : read bytes = .ok file) : file.WellFormed ∧ file.write = bytes := by
  obtain ⟨plain, rest, raw, checked, decoded⟩ := read_eq_ok.mp found
  obtain ⟨countable, rfl, -⟩ := readRaw_eq_ok.mp raw
  have laid := laid_plain_iff.mpr ⟨countable, checked⟩
  obtain ⟨wellFormed, rfl⟩ := decodeBodies_eq_ok.mp ⟨laid, decoded⟩
  exact ⟨wellFormed, file.write_flatten.symm⟩

theorem WellFormed.read_write {file : ClassFile} (wellFormed : file.WellFormed) :
    read file.write = .ok file := by
  obtain ⟨laid, decoded⟩ := decodeBodies_eq_ok.mpr ⟨wellFormed, rfl⟩
  obtain ⟨countable, checked⟩ := laid_plain_iff.mp laid
  refine read_eq_ok.mpr ⟨file.flatten, [], ?_, checked, decoded⟩
  exact readRaw_eq_ok.mpr ⟨countable, file.write_flatten.symm, rfl⟩

/-- **Writing gives back what was read.** Every byte of a class file that can be read is determined
by what it is read as. -/
theorem write_eq_of_read {bytes : List UInt8} {file : ClassFile}
    (found : read bytes = .ok file) : file.write = bytes :=
  (wellFormed_and_write_of_read found).2

/-- A file with a filler, constants that are no numbers, a flag without meaning, and a method with
two bodies, the first of them with a handler and an attribute of its own. -/
def sample : ClassFile where
  minorVersion := 3
  majorVersion := 52
  pool := #[.utf8 [65], .classRef 1, .double 0x7ff0000000000001, .empty,
    .utf8 [67, 111, 100, 101], .float 0xffc00001]
  flags := ⟨0xf001⟩
  thisClass := 2
  superClass := 2
  interfaces := [2]
  fields := []
  methods := [⟨⟨9⟩, 1, 1, [
    .code 5 ⟨1, 0, [1, 191], [⟨0, 1, 1, 0⟩], [.raw 5 [7]]⟩,
    .raw 1 [255],
    .code 5 ⟨0, 0, [177], [], []⟩]⟩]
  attributes := [.raw 1 []]

/-- The bytes of the sample: header and pool, the class itself, and the attributes of its method. -/
def sampleBytes : List UInt8 :=
  [0xca, 0xfe, 0xba, 0xbe, 0, 3, 0, 52,
    0, 7, 1, 0, 1, 65, 7, 0, 1, 6, 0x7f, 0xf0, 0, 0, 0, 0, 0, 1, 1, 0, 4, 67, 111, 100, 101,
    4, 0xff, 0xc0, 0, 1,
    0xf0, 1, 0, 2, 0, 2, 0, 1, 0, 2, 0, 0, 0, 1, 0, 9, 0, 1, 0, 1, 0, 3,
    0, 5, 0, 0, 0, 29, 0, 1, 0, 0, 0, 0, 0, 2, 1, 191, 0, 1, 0, 0, 0, 1, 0, 1, 0, 0,
    0, 1, 0, 5, 0, 0, 0, 1, 7,
    0, 1, 0, 0, 0, 1, 255,
    0, 5, 0, 0, 0, 13, 0, 0, 0, 0, 0, 0, 0, 1, 177, 0, 0, 0, 0,
    0, 1, 0, 1, 0, 0, 0, 0]

theorem write_eq_of_read_sample :
    read sampleBytes = .ok sample ∧ sample.write = sampleBytes := by
  have found : read sampleBytes = .ok sample := by cbv
  exact ⟨found, write_eq_of_read found⟩

/-- **The files that can be read are the well-formed ones.** A byte sequence is read as a file
exactly if the file is well formed and the bytes are its written form. -/
theorem read_eq_ok_iff_wellFormed {bytes : List UInt8} {file : ClassFile} :
    read bytes = .ok file ↔ file.WellFormed ∧ file.write = bytes := by
  constructor
  · exact wellFormed_and_write_of_read
  · rintro ⟨wellFormed, rfl⟩
    exact wellFormed.read_write

end ClassFile

end JavaMachine
