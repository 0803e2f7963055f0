import JavaMachine.Value
import Mathlib

/-! # What fields and elements hold

A field or an element of an array holds a value of the kind of its type, and a number that is kept
as an int is in the range of its type. Cutting a value to a type makes it one that the type holds,
if only its kind is right, and changes nothing if it is one already. -/

namespace JavaMachine

namespace FieldType

/-- The range of the numbers that are held as ints of a narrow type. -/
def range? : FieldType → Option (Int × Int)
  | .boolean => some (0, 1)
  | .byte => some (-128, 127)
  | .char => some (0, 65535)
  | .short => some (-32768, 32767)
  | _ => none

/-- A value is in the range of a type, if that has one. -/
def Ranges (type : FieldType) (value : Value) : Prop :=
  ∀ number low high, value = .int number → type.range? = some (low, high) →
    low ≤ number.toInt ∧ number.toInt ≤ high

/-- A value that a field or an element of a type can hold. -/
structure Holds (type : FieldType) (value : Value) : Prop where
  kind : value.kind = .value type.kind
  ranges : type.Ranges value

theorem isReference_iff {type : FieldType} : type.isReference = true ↔ type.kind = .reference := by
  cases type <;> simp [isReference, kind]

theorem holds_reference {type : FieldType} (reference : type.isReference = true)
    (target : Option Ref) : type.Holds (.reference target) where
  kind := congrArg SlotKind.value (isReference_iff.mp reference).symm
  ranges number low high held := by cases held

/-- A reference is one whatever class or array it is declared with. -/
theorem Holds.reference {first second : FieldType} {value : Value} (holds : first.Holds value)
    (reference : first.isReference = true) (other : second.isReference = true) :
    second.Holds value := by
  have kind := holds.kind
  rw [isReference_iff.mp reference] at kind
  cases value <;> cases kind
  exact holds_reference other _

end FieldType

namespace Value

theorem kind_narrow (type : FieldType) (value : Value) : (narrow type value).kind = value.kind := by
  unfold narrow
  split <;> rfl

theorem eq_reference_of_narrow {type : FieldType} {value : Value} {target : Option Ref}
    (narrowed : narrow type value = .reference target) : value = .reference target := by
  unfold narrow at narrowed
  split at narrowed <;> first | exact narrowed | cases narrowed

/-- A number that is masked lies between zero and the mask. -/
theorem masked_bounds (number mask : Int32) (positive : mask.toBitVec.toNat < 2 ^ 31) :
    0 ≤ (number &&& mask).toInt ∧ (number &&& mask).toInt ≤ mask.toBitVec.toNat := by
  have masked : (number &&& mask).toInt = (number.toBitVec &&& mask.toBitVec).toInt := rfl
  have below : number.toBitVec.toNat &&& mask.toBitVec.toNat ≤ mask.toBitVec.toNat :=
    Nat.and_le_right
  rw [masked, BitVec.toInt_eq_toNat_cond, BitVec.toNat_and]
  split <;> omega

theorem signedByte_bounds (number : Int32) :
    -128 ≤ (signedByte number).toInt ∧ (signedByte number).toInt ≤ 127 := by
  have least := number.toInt8.le_toInt
  have greatest := number.toInt8.toInt_lt
  rw [signedByte, Int8.toInt_toInt32]
  omega

theorem signedShort_bounds (number : Int32) :
    -32768 ≤ (signedShort number).toInt ∧ (signedShort number).toInt ≤ 32767 := by
  have least := number.toInt16.le_toInt
  have greatest := number.toInt16.toInt_lt
  rw [signedShort, Int16.toInt_toInt32]
  omega

theorem ranges_narrow (type : FieldType) (value : Value) : type.Ranges (narrow type value) := by
  intro number low high held range
  cases type <;> cases range <;> cases value <;> cases held
  · exact signedByte_bounds _
  · exact masked_bounds _ 0xffff (by decide)
  · exact signedShort_bounds _
  · exact masked_bounds _ 1 (by decide)

/-- A value of the right kind is held once it is cut to the type. -/
theorem holds_narrow {type : FieldType} {value : Value} (kind : value.kind = .value type.kind) :
    type.Holds (narrow type value) where
  kind := (kind_narrow type value).trans kind
  ranges := ranges_narrow type value

theorem signedByte_eq {number : Int32} (least : -128 ≤ number.toInt) (most : number.toInt ≤ 127) :
    signedByte number = number := by
  rw [← Int32.toInt_inj, signedByte, Int8.toInt_toInt32, Int32.toInt_toInt8]
  exact Int.bmod_eq_of_le (by omega) (by omega)

theorem signedShort_eq {number : Int32} (least : -32768 ≤ number.toInt)
    (most : number.toInt ≤ 32767) : signedShort number = number := by
  rw [← Int32.toInt_inj, signedShort, Int16.toInt_toInt32, Int32.toInt_toInt16]
  exact Int.bmod_eq_of_le (by omega) (by omega)

/-- A mask of ones leaves a number as it is that has no more places. -/
theorem masked_eq {number mask : Int32} {places : Nat}
    (ones : mask.toBitVec.toNat = 2 ^ places - 1) (least : 0 ≤ number.toInt)
    (most : number.toInt < 2 ^ places) : number &&& mask = number := by
  have signed : number.toInt = number.toBitVec.toInt := rfl
  have bound : number.toBitVec.toNat < 2 ^ places := by
    rw [signed, BitVec.toInt_eq_toNat_cond] at least most
    split at least
    · rw [if_pos ‹_›] at most
      exact_mod_cast most
    · have width := number.toBitVec.isLt
      omega
  rw [← Int32.toBitVec_inj, Int32.toBitVec_and, ← BitVec.toNat_inj, BitVec.toNat_and, ones,
    Nat.and_two_pow_sub_one_eq_mod, Nat.mod_eq_of_lt bound]

/-- A value that the type holds is not changed by being cut to it. -/
theorem narrow_eq_of_holds {type : FieldType} {value : Value} (holds : type.Holds value) :
    narrow type value = value := by
  cases value with
  | int number =>
    cases type with
    | boolean =>
      obtain ⟨least, most⟩ := holds.ranges number 0 1 rfl rfl
      have ones : (1 : Int32).toBitVec.toNat = 2 ^ 1 - 1 := rfl
      exact congrArg int (masked_eq ones least (by omega))
    | byte =>
      obtain ⟨least, most⟩ := holds.ranges number _ _ rfl rfl
      exact congrArg int (signedByte_eq least most)
    | char =>
      obtain ⟨least, most⟩ := holds.ranges number _ _ rfl rfl
      have ones : (0xffff : Int32).toBitVec.toNat = 2 ^ 16 - 1 := rfl
      exact congrArg int (masked_eq ones least (by omega))
    | short =>
      obtain ⟨least, most⟩ := holds.ranges number _ _ rfl rfl
      exact congrArg int (signedShort_eq least most)
    | _ => rfl
  | _ => cases type <;> rfl

theorem ranges_zero (type : FieldType) : type.Ranges (zero type) := by
  intro number low high held range
  cases type <;> cases range <;> cases held <;> decide

theorem kind_zero (type : FieldType) : (zero type).kind = .value type.kind := by
  cases type <;> rfl

theorem holds_zero (type : FieldType) : type.Holds (zero type) :=
  ⟨kind_zero type, ranges_zero type⟩

end Value

end JavaMachine
