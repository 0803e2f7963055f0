import JavaMachine.Utf16
import Mathlib

/-! # Texts as sequences of units

The units of a text say which text it is (`Utf16.units_inj`). A text that is put together of two has
the units of both, and the hash code is a number in base 31 whose digits are the units
(`Utf16.units_append`, `Utf16.toInt_hash_append`). -/

namespace JavaMachine.Utf16

variable {c d : Char} {xs ys : List UInt16} {s t : String}

/-! ## The units of a character

A character below `0x10000` is its own unit. As it is no surrogate, it is not mistaken for the first
unit of another one, which is a high surrogate and followed by a low one. -/

theorem toNat_ranges (c : Char) : c.toNat < 0xd800 ∨ 0xe000 ≤ c.toNat ∧ c.toNat < 0x110000 := by
  rcases c.valid with low | ⟨high, limit⟩
  · exact .inl low
  · exact .inr ⟨high, limit⟩

theorem ofChar_of_lt (small : c.toNat < 0x10000) :
    ∃ unit : UInt16, ofChar c = [unit] ∧ unit.toNat = c.toNat := by
  have below : c.val < 0x10000 := small
  refine ⟨_, if_pos below, ?_⟩
  rw [UInt32.toNat_toUInt16]
  exact Nat.mod_eq_of_lt small

theorem ofChar_of_ge (large : 0x10000 ≤ c.toNat) :
    ∃ high low : UInt16, ofChar c = [high, low] ∧
      high.toNat = 0xd800 + (c.toNat - 0x10000) / 0x400 ∧
      low.toNat = 0xdc00 + (c.toNat - 0x10000) % 0x400 := by
  have limit : c.toNat < 0x110000 := (toNat_ranges c).elim (by omega) And.right
  have above : (0x10000 : UInt32) ≤ c.val := large
  have offset : (c.val - 0x10000).toNat = c.toNat - 0x10000 := UInt32.toNat_sub_of_le _ _ above
  refine ⟨_, _, if_neg (UInt32.not_lt.mpr above), ?_, ?_⟩
  · have shift : UInt32.toNat 10 % 32 = 10 := rfl
    have mark : UInt16.toNat 0xd800 = 0xd800 := rfl
    rw [UInt16.toNat_add, UInt32.toNat_toUInt16, UInt32.toNat_shiftRight, offset, shift, mark,
      Nat.shiftRight_eq_div_pow]
    omega
  · have mask : UInt32.toNat 0x3ff = 2 ^ 10 - 1 := rfl
    have mark : UInt16.toNat 0xdc00 = 0xdc00 := rfl
    rw [UInt16.toNat_add, UInt32.toNat_toUInt16, UInt32.toNat_and, offset, mask, mark,
      Nat.and_two_pow_sub_one_eq_mod]
    omega

theorem eq_of_toNat_eq (same : c.toNat = d.toNat) : c = d :=
  Char.ext (UInt32.toNat_inj.mp same)

/-- The units of a character do not go on as those of another one. -/
theorem ofChar_append_inj (same : ofChar c ++ xs = ofChar d ++ ys) : c = d ∧ xs = ys := by
  have rangesC := toNat_ranges c
  have rangesD := toNat_ranges d
  rcases Nat.lt_or_ge c.toNat 0x10000 with smallC | largeC <;>
    rcases Nat.lt_or_ge d.toNat 0x10000 with smallD | largeD
  · obtain ⟨unit, isC, atC⟩ := ofChar_of_lt smallC
    obtain ⟨other, isD, atD⟩ := ofChar_of_lt smallD
    rw [isC, isD] at same
    obtain ⟨rfl, rfl⟩ := List.cons.inj same
    exact ⟨eq_of_toNat_eq (atC.symm.trans atD), rfl⟩
  · obtain ⟨unit, isC, atC⟩ := ofChar_of_lt smallC
    obtain ⟨high, low, isD, atHigh, -⟩ := ofChar_of_ge largeD
    rw [isC, isD] at same
    obtain ⟨rfl, -⟩ := List.cons.inj same
    omega
  · obtain ⟨high, low, isC, atHigh, -⟩ := ofChar_of_ge largeC
    obtain ⟨unit, isD, atD⟩ := ofChar_of_lt smallD
    rw [isC, isD] at same
    obtain ⟨rfl, -⟩ := List.cons.inj same
    omega
  · obtain ⟨high, low, isC, atHigh, atLow⟩ := ofChar_of_ge largeC
    obtain ⟨high', low', isD, atHigh', atLow'⟩ := ofChar_of_ge largeD
    rw [isC, isD] at same
    obtain ⟨rfl, rest⟩ := List.cons.inj same
    obtain ⟨rfl, rfl⟩ := List.cons.inj rest
    exact ⟨eq_of_toNat_eq (by omega), rfl⟩

theorem ofChar_ne_nil (c : Char) : ofChar c ≠ [] := by
  unfold ofChar
  split <;> exact List.cons_ne_nil _ _

theorem flatMap_ofChar_inj {front back : List Char}
    (same : front.flatMap ofChar = back.flatMap ofChar) : front = back := by
  induction front generalizing back with
  | nil =>
    cases back with
    | nil => rfl
    | cons d back =>
      rw [List.flatMap_cons] at same
      exact absurd (List.append_eq_nil_iff.mp same.symm).1 (ofChar_ne_nil d)
  | cons c front ih =>
    cases back with
    | nil =>
      rw [List.flatMap_cons] at same
      exact absurd (List.append_eq_nil_iff.mp same).1 (ofChar_ne_nil c)
    | cons d back =>
      rw [List.flatMap_cons, List.flatMap_cons] at same
      obtain ⟨rfl, rest⟩ := ofChar_append_inj same
      rw [ih rest]

/-! ## The units of a text -/

/-- Texts with the same units are the same. -/
theorem units_inj : units s = units t ↔ s = t :=
  ⟨fun same => String.ext (flatMap_ofChar_inj same), congrArg units⟩

theorem units_append (s t : String) : units (s ++ t) = units s ++ units t := by
  rw [units, String.toList_append, List.flatMap_append]
  rfl

theorem units_eq_nil_iff : units s = [] ↔ s = "" :=
  units_inj (t := "")

/-! ## Hash codes -/

/-- To go on from a sum instead of zero adds the sum, moved up by the digits that follow. -/
theorem foldl_hash (sum : Int32) (ys : List UInt16) :
    ys.foldl (fun sum unit => sum * 31 + unit.toUInt32.toInt32) sum =
      sum * 31 ^ ys.length + hash ys := by
  induction ys generalizing sum with
  | nil =>
    rw [List.foldl_nil, List.length_nil, Int32.pow_zero, Int32.mul_one]
    exact (Int32.add_zero sum).symm
  | cons unit rest ih =>
    have first : hash (unit :: rest) =
        (0 * 31 + unit.toUInt32.toInt32) * 31 ^ rest.length + hash rest := ih _
    rw [List.foldl_cons, ih, first, List.length_cons, Int32.pow_succ]
    grind

theorem hash_append (xs ys : List UInt16) :
    hash (xs ++ ys) = hash xs * 31 ^ ys.length + hash ys := by
  rw [hash, List.foldl_append, foldl_hash]
  rfl

theorem pow_eq_ofInt (n : Nat) : (31 : Int32) ^ n = Int32.ofInt (31 ^ n) := by
  induction n with
  | zero => rfl
  | succ n ih =>
    rw [Int32.pow_succ, ih, pow_succ, Int32.ofInt_mul]
    rfl

/-- The hash code of what is put together is that of the first part, moved up by the digits of the
second one, and that of the second part. -/
theorem toInt_hash_append (xs ys : List UInt16) : (hash (xs ++ ys)).toInt =
    ((hash xs).toInt * 31 ^ ys.length + (hash ys).toInt).bmod (2 ^ 32) := by
  have same : hash (xs ++ ys) =
      Int32.ofInt ((hash xs).toInt * 31 ^ ys.length + (hash ys).toInt) := by
    rw [hash_append, pow_eq_ofInt, Int32.ofInt_add, Int32.ofInt_mul, Int32.ofInt_toInt,
      Int32.ofInt_toInt]
  rw [same, Int32.toInt_ofInt]
  rfl

end JavaMachine.Utf16
