import JavaMachine.Proofs.Assembler.Pool
import JavaMachine.Proofs.Constant.InOrder

/-! # Texts and their bytes

Modified UTF-8 as a set of byte sequences, said by the ranges of their bytes and without a codec:
`ModifiedUtf8.Strict`. Every text has exactly one of them, no two texts share one, and nothing else
is read as a text. So a constant pool gives back the texts that were put into it, and keeps
different texts apart (`texts_faithful`). -/

namespace JavaMachine

namespace ModifiedUtf8

/-- A byte that goes on with a character. -/
def Tail (byte : UInt8) : Prop :=
  0x80 ≤ byte ∧ byte < 0xc0

/-- The byte sequences that are texts. No byte is zero, and no character has a longer form than it
needs, save the character zero, which has two bytes. There are no forms of four bytes: a character
above `0xffff` is a high surrogate and a low one, of three bytes each, which stand nowhere else. -/
inductive Strict : List UInt8 → Prop where
  | nil : Strict []
  | one {a : UInt8} {rest : List UInt8} (positive : 0 < a) (small : a < 0x80)
      (strict : Strict rest) : Strict (a :: rest)
  | zero {rest : List UInt8} (strict : Strict rest) : Strict (0xc0 :: 0x80 :: rest)
  | two {a b : UInt8} {rest : List UInt8} (first : 0xc2 ≤ a ∧ a < 0xe0) (second : Tail b)
      (strict : Strict rest) : Strict (a :: b :: rest)
  | three {a b c : UInt8} {rest : List UInt8} (first : 0xe0 ≤ a ∧ a < 0xf0) (second : Tail b)
      (third : Tail c) (needed : a = 0xe0 → 0xa0 ≤ b) (whole : a = 0xed → b < 0xa0)
      (strict : Strict rest) : Strict (a :: b :: c :: rest)
  | pair {b c e f : UInt8} {rest : List UInt8} (high : 0xa0 ≤ b ∧ b < 0xb0) (third : Tail c)
      (low : 0xb0 ≤ e ∧ e < 0xc0) (sixth : Tail f) (strict : Strict rest) :
      Strict (0xed :: b :: c :: 0xed :: e :: f :: rest)

/-! ## The forms of numbers

The lead and the tails of a form carry marks: `12416` is what the marks of two bytes add to a
number, `925824` what those of three bytes do, and `56613888` what those of two surrogates do. -/

variable {a b c d e f : UInt8} {char : Char} {unit high low code : Nat}

theorem tail_iff : Tail a ↔ 128 ≤ a.toNat ∧ a.toNat < 192 := by
  unfold Tail
  rw [UInt8.le_iff_toNat_le, UInt8.lt_iff_toNat_lt]
  rfl

theorem toNat_ofNat_of_small (small : code < 0x80) : (UInt8.ofNat code).toNat = code := by
  rw [UInt8.toNat_ofNat']
  omega

theorem toNat_continuation (code : Nat) : (continuation code).toNat = 128 + code % 64 := by
  unfold continuation
  rw [UInt8.toNat_ofNat']
  omega

theorem tail_continuation (code : Nat) : Tail (continuation code) := by
  rw [tail_iff, toNat_continuation]
  omega

theorem toNat_leadOfTwo (small : code < 0x800) :
    (UInt8.ofNat (0xc0 + code / 0x40)).toNat = 192 + code / 64 := by
  rw [UInt8.toNat_ofNat']
  omega

theorem toNat_leadOfThree (small : unit < 0x10000) :
    (UInt8.ofNat (0xe0 + unit / 0x1000)).toNat = 224 + unit / 4096 := by
  rw [UInt8.toNat_ofNat']
  omega

theorem continuationBits_eq_some :
    continuationBits b = some code ↔ Tail b ∧ b.toNat = 128 + code := by
  unfold continuationBits
  by_cases tail : Tail b
  · have := tail_iff.mp tail
    have inside : 0x80 ≤ b ∧ b < 0xc0 := tail
    rw [if_pos inside, Option.some.injEq]
    constructor
    · intro same
      exact ⟨tail, by omega⟩
    · rintro ⟨-, same⟩
      omega
  · have outside : ¬ (0x80 ≤ b ∧ b < 0xc0) := tail
    rw [if_neg outside]
    exact ⟨nofun, fun found => absurd found.1 tail⟩

/-- A character is no surrogate and at most `0x10ffff`. -/
theorem toNat_valid (char : Char) :
    char.toNat < 0xd800 ∨ 0xe000 ≤ char.toNat ∧ char.toNat < 0x110000 := by
  have valid : char.toNat < 0xd800 ∨ 0xdfff < char.toNat ∧ char.toNat < 0x110000 := char.valid
  omega

theorem toNat_ofNat_of_valid (code : Nat)
    (valid : code < 0xd800 ∨ 0xe000 ≤ code ∧ code < 0x110000) : (Char.ofNat code).toNat = code := by
  have isValid : code.isValidChar := by
    rcases valid with low | ⟨high, bound⟩
    · exact .inl low
    · exact .inr ⟨by omega, bound⟩
  simp [Char.ofNat, isValid, Char.ofNatAux, Char.toNat]

theorem lead_iff {lower upper : UInt8} :
    lower ≤ a ∧ a < upper ↔ lower.toNat ≤ a.toNat ∧ a.toNat < upper.toNat := by
  rw [UInt8.le_iff_toNat_le, UInt8.lt_iff_toNat_lt]

theorem unitOfThree_eq_some :
    unitOfThree a b c = some unit ↔
      (224 ≤ a.toNat ∧ a.toNat < 240) ∧ Tail b ∧ Tail c ∧ 2048 ≤ unit ∧
        unit + 925824 = a.toNat * 4096 + b.toNat * 64 + c.toNat := by
  unfold unitOfThree
  simp only [Option.bind_eq_bind, Option.bind_eq_some_iff, Option.guard_eq_some', exists_const,
    continuationBits_eq_some, lead_iff, Option.pure_def, Option.some.injEq]
  constructor
  · rintro ⟨first, high, ⟨second, highIs⟩, low, ⟨third, lowIs⟩, long, rfl⟩
    have first : 224 ≤ a.toNat ∧ a.toNat < 240 := first
    exact ⟨first, second, third, long, by omega⟩
  · rintro ⟨first, second, third, long, same⟩
    have := tail_iff.mp second
    have := tail_iff.mp third
    refine ⟨first, b.toNat - 128, ⟨second, by omega⟩, c.toNat - 128, ⟨third, by omega⟩, ?_, ?_⟩
    · omega
    · omega

theorem charOfTwo_eq_some :
    charOfTwo a b = some char ↔
      (192 ≤ a.toNat ∧ a.toNat < 224) ∧ Tail b ∧ (char.toNat = 0 ∨ 128 ≤ char.toNat) ∧
        char.toNat + 12416 = a.toNat * 64 + b.toNat := by
  unfold charOfTwo
  simp only [Option.bind_eq_bind, Option.bind_eq_some_iff, Option.guard_eq_some', exists_const,
    continuationBits_eq_some, lead_iff, Option.pure_def, Option.some.injEq]
  constructor
  · rintro ⟨first, low, ⟨second, lowIs⟩, long, rfl⟩
    have first : 192 ≤ a.toNat ∧ a.toNat < 224 := first
    have := tail_iff.mp second
    have valid := toNat_ofNat_of_valid ((a.toNat - 192) * 64 + low) (.inl (by omega))
    refine ⟨first, second, ?_, ?_⟩
    · rw [valid]
      exact long
    · rw [valid]
      omega
  · rintro ⟨first, second, long, same⟩
    have := tail_iff.mp second
    have code : (a.toNat - 192) * 64 + (b.toNat - 128) = char.toNat := by omega
    refine ⟨first, b.toNat - 128, ⟨second, by omega⟩, ?_, ?_⟩
    · omega
    · exact (congrArg Char.ofNat code).trans (Char.ofNat_toNat char)

theorem charOfPair_eq_some :
    charOfPair high low = some char ↔
      (0xd800 ≤ high ∧ high < 0xdc00) ∧ (0xdc00 ≤ low ∧ low < 0xe000) ∧
        char.toNat + 56613888 = high * 1024 + low := by
  unfold charOfPair
  simp only [Option.bind_eq_bind, Option.bind_eq_some_iff, Option.guard_eq_some', exists_const,
    Option.pure_def, Option.some.injEq]
  refine and_congr_right fun first => and_congr_right fun second => ?_
  have valid := toNat_ofNat_of_valid (0x10000 + (high - 0xd800) * 0x400 + (low - 0xdc00))
    (.inr ⟨by omega, by omega⟩)
  constructor
  · rintro rfl
    rw [valid]
    omega
  · intro same
    have code : 0x10000 + (high - 0xd800) * 0x400 + (low - 0xdc00) = char.toNat := by omega
    rw [code, Char.ofNat_toNat]

theorem exists_charOfPair (high low : Nat) (first : 0xd800 ≤ high ∧ high < 0xdc00)
    (second : 0xdc00 ≤ low ∧ low < 0xe000) : ∃ char, charOfPair high low = some char := by
  refine ⟨Char.ofNat (0x10000 + (high - 0xd800) * 0x400 + (low - 0xdc00)), ?_⟩
  rw [charOfPair_eq_some, toNat_ofNat_of_valid _ (.inr ⟨by omega, by omega⟩)]
  exact ⟨first, second, by omega⟩

/-! ## Characters -/

/-- A unit that is not a surrogate stands for a character of its own. -/
theorem threeBytes_eq (isUnit : unitOfThree a b c = some unit) : threeBytes unit = [a, b, c] := by
  obtain ⟨first, second, third, long, same⟩ := unitOfThree_eq_some.mp isUnit
  have := tail_iff.mp second
  have := tail_iff.mp third
  have lead : UInt8.ofNat (0xe0 + unit / 0x1000) = a := UInt8.toNat_inj.mp (by
    rw [toNat_leadOfThree (by omega)]
    omega)
  have middle : continuation (unit / 0x40) = b := UInt8.toNat_inj.mp (by
    rw [toNat_continuation]
    omega)
  have last : continuation unit = c := UInt8.toNat_inj.mp (by
    rw [toNat_continuation]
    omega)
  rw [threeBytes, lead, middle, last]

theorem unitOfThree_threeBytes (long : 0x800 ≤ unit) (short : unit < 0x10000) :
    unitOfThree (UInt8.ofNat (0xe0 + unit / 0x1000)) (continuation (unit / 0x40))
      (continuation unit) = some unit := by
  rw [unitOfThree_eq_some, toNat_leadOfThree short, toNat_continuation, toNat_continuation]
  exact ⟨by omega, tail_continuation _, tail_continuation _, long, by omega⟩

theorem charOfTwo_none_of_lead (lead : 0xe0 ≤ a) (b : UInt8) : charOfTwo a b = none := by
  rw [Option.eq_none_iff_forall_ne_some]
  intro char isChar
  have upper := (charOfTwo_eq_some.mp isChar).1.2
  have lower : 224 ≤ a.toNat := UInt8.le_iff_toNat_le.mp lead
  omega

theorem encodeChar_of_two (isChar : charOfTwo a b = some char) : encodeChar char = [a, b] := by
  obtain ⟨first, second, long, same⟩ := charOfTwo_eq_some.mp isChar
  have := tail_iff.mp second
  unfold encodeChar
  dsimp only
  rcases long with zero | long
  · have lead : a = 0xc0 := UInt8.toNat_inj.mp (by
      change a.toNat = 192
      omega)
    have last : b = 0x80 := UInt8.toNat_inj.mp (by
      change b.toNat = 128
      omega)
    rw [if_pos zero, lead, last]
  · have lead : UInt8.ofNat (0xc0 + char.toNat / 0x40) = a := UInt8.toNat_inj.mp (by
      rw [toNat_leadOfTwo (by omega)]
      omega)
    have last : continuation char.toNat = b := UInt8.toNat_inj.mp (by
      rw [toNat_continuation]
      omega)
    rw [if_neg (by omega), if_neg (by omega), if_pos (by omega), lead, last]

theorem encodeChar_of_one (positive : a ≠ 0) (small : a < 0x80) :
    encodeChar (Char.ofNat a.toNat) = [a] := by
  have nonzero : a.toNat ≠ 0 := fun zero => positive (UInt8.toNat_inj.mp zero)
  have bound : a.toNat < 128 := UInt8.lt_iff_toNat_lt.mp small
  have code := toNat_ofNat_of_valid a.toNat (.inl (by omega))
  unfold encodeChar
  dsimp only
  rw [code, if_neg nonzero, if_pos bound, UInt8.ofNat_toNat]

theorem encodeChar_of_three (isUnit : unitOfThree a b c = some unit)
    (whole : unit < 0xd800 ∨ 0xe000 ≤ unit) : encodeChar (Char.ofNat unit) = [a, b, c] := by
  obtain ⟨first, second, third, long, same⟩ := unitOfThree_eq_some.mp isUnit
  have := tail_iff.mp second
  have := tail_iff.mp third
  have code := toNat_ofNat_of_valid unit (by omega)
  unfold encodeChar
  dsimp only
  rw [code, if_neg (by omega), if_neg (by omega), if_neg (by omega), if_pos (by omega),
    threeBytes_eq isUnit]

theorem charOfPair_surrogates (far : 0x10000 ≤ char.toNat) :
    charOfPair (0xd800 + (char.toNat - 0x10000) / 0x400) (0xdc00 + (char.toNat - 0x10000) % 0x400) =
      some char := by
  have := toNat_valid char
  rw [charOfPair_eq_some]
  omega

theorem encodeChar_of_pair (isHigh : unitOfThree a b c = some high)
    (isLow : unitOfThree d e f = some low) (isChar : charOfPair high low = some char) :
    encodeChar char = [a, b, c, d, e, f] := by
  obtain ⟨first, second, same⟩ := charOfPair_eq_some.mp isChar
  have highIs : 0xd800 + (char.toNat - 0x10000) / 0x400 = high := by omega
  have lowIs : 0xdc00 + (char.toNat - 0x10000) % 0x400 = low := by omega
  unfold encodeChar
  dsimp only
  rw [if_neg (by omega), if_neg (by omega), if_neg (by omega), if_neg (by omega), highIs, lowIs,
    threeBytes_eq isHigh, threeBytes_eq isLow]
  rfl

/-! ## One character of many -/

theorem decodeChars_of_one (positive : a ≠ 0) (small : a < 0x80) (rest : List UInt8) :
    decodeChars (a :: rest) = (decodeChars rest).map (Char.ofNat a.toNat :: ·) := by
  rw [decodeChars.eq_def]
  simp only [positive, small, ↓reduceIte]

/-- A byte above `0x7f` does not stand alone. -/
theorem lead_of_large (large : 0x80 ≤ a.toNat) : a ≠ 0 ∧ ¬ a < 0x80 := by
  constructor
  · rintro rfl
    cases large
  · rw [UInt8.lt_iff_toNat_lt]
    exact Nat.not_lt.mpr large

theorem decodeChars_of_two (isChar : charOfTwo a b = some char) (rest : List UInt8) :
    decodeChars (a :: b :: rest) = (decodeChars rest).map (char :: ·) := by
  have lead := (charOfTwo_eq_some.mp isChar).1.1
  obtain ⟨positive, large⟩ := lead_of_large (a := a) (by omega)
  rw [decodeChars.eq_def]
  simp only [positive, large, ↓reduceIte, isChar]

theorem decodeChars_of_three (isUnit : unitOfThree a b c = some unit)
    (whole : unit < 0xd800 ∨ 0xe000 ≤ unit) (rest : List UInt8) :
    decodeChars (a :: b :: c :: rest) = (decodeChars rest).map (Char.ofNat unit :: ·) := by
  have lead := (unitOfThree_eq_some.mp isUnit).1.1
  obtain ⟨positive, large⟩ := lead_of_large (a := a) (by omega)
  rw [decodeChars.eq_def]
  simp only [positive, large, ↓reduceIte, charOfTwo_none_of_lead lead b, isUnit, whole]

theorem decodeChars_of_pair (isHigh : unitOfThree a b c = some high)
    (isLow : unitOfThree d e f = some low) (isChar : charOfPair high low = some char)
    (rest : List UInt8) :
    decodeChars (a :: b :: c :: d :: e :: f :: rest) = (decodeChars rest).map (char :: ·) := by
  have lead := (unitOfThree_eq_some.mp isHigh).1.1
  obtain ⟨positive, large⟩ := lead_of_large (a := a) (by omega)
  have surrogate : ¬ (high < 0xd800 ∨ 0xe000 ≤ high) := by
    have := (charOfPair_eq_some.mp isChar).1
    omega
  rw [decodeChars.eq_def]
  simp only [positive, large, ↓reduceIte, charOfTwo_none_of_lead lead b, isHigh, surrogate, isLow,
    Option.bind_some, isChar]

/-- The bytes of a character are read as the character, whatever follows. -/
theorem decodeChars_encodeChar (char : Char) (rest : List UInt8) :
    decodeChars (encodeChar char ++ rest) = (decodeChars rest).map (char :: ·) := by
  have valid := toNat_valid char
  unfold encodeChar
  dsimp only
  by_cases zero : char.toNat = 0
  · rw [if_pos zero]
    refine decodeChars_of_two (charOfTwo_eq_some.mpr ⟨by decide, tail_iff.mpr (by decide),
      .inl zero, ?_⟩) rest
    rw [zero]
    rfl
  by_cases one : char.toNat < 0x80
  · rw [if_neg zero, if_pos one]
    have byte := toNat_ofNat_of_small one
    have positive : UInt8.ofNat char.toNat ≠ 0 := by
      intro none
      rw [none] at byte
      exact zero byte.symm
    have small : UInt8.ofNat char.toNat < 0x80 := by
      rw [UInt8.lt_iff_toNat_lt, byte]
      exact one
    have step := decodeChars_of_one positive small rest
    rw [byte, Char.ofNat_toNat] at step
    exact step
  by_cases two : char.toNat < 0x800
  · rw [if_neg zero, if_neg one, if_pos two]
    refine decodeChars_of_two (charOfTwo_eq_some.mpr ⟨?_, tail_continuation _, .inr ?_, ?_⟩) rest
    · rw [toNat_leadOfTwo two]
      omega
    · omega
    · rw [toNat_leadOfTwo two, toNat_continuation]
      omega
  by_cases three : char.toNat < 0x10000
  · rw [if_neg zero, if_neg one, if_neg two, if_pos three]
    have step := decodeChars_of_three (unitOfThree_threeBytes (by omega) three) (by omega) rest
    rw [Char.ofNat_toNat] at step
    exact step
  · rw [if_neg zero, if_neg one, if_neg two, if_neg three]
    exact decodeChars_of_pair (unitOfThree_threeBytes (by omega) (by omega))
      (unitOfThree_threeBytes (by omega) (by omega)) (charOfPair_surrogates (by omega)) rest

/-! ## Texts -/

theorem strict_of_two {rest : List UInt8} (isChar : charOfTwo a b = some char)
    (strict : Strict rest) : Strict (a :: b :: rest) := by
  obtain ⟨first, second, long, same⟩ := charOfTwo_eq_some.mp isChar
  have := tail_iff.mp second
  rcases long with zero | long
  · have lead : a = 0xc0 := UInt8.toNat_inj.mp (show a.toNat = 192 by omega)
    have last : b = 0x80 := UInt8.toNat_inj.mp (show b.toNat = 128 by omega)
    rw [lead, last]
    exact .zero strict
  · refine .two (lead_iff.mpr ?_) second strict
    change 194 ≤ a.toNat ∧ a.toNat < 224
    omega

theorem strict_of_three {rest : List UInt8} (isUnit : unitOfThree a b c = some unit)
    (whole : unit < 0xd800 ∨ 0xe000 ≤ unit) (strict : Strict rest) :
    Strict (a :: b :: c :: rest) := by
  obtain ⟨first, second, third, long, same⟩ := unitOfThree_eq_some.mp isUnit
  have := tail_iff.mp second
  have := tail_iff.mp third
  refine .three (lead_iff.mpr first) second third ?_ ?_ strict
  · rintro rfl
    have lead : (0xe0 : UInt8).toNat = 224 := rfl
    rw [UInt8.le_iff_toNat_le]
    change 160 ≤ b.toNat
    omega
  · rintro rfl
    have lead : (0xed : UInt8).toNat = 237 := rfl
    rw [UInt8.lt_iff_toNat_lt]
    change b.toNat < 160
    omega

theorem strict_of_pair {rest : List UInt8} (isHigh : unitOfThree a b c = some high)
    (isLow : unitOfThree d e f = some low) (isChar : charOfPair high low = some char)
    (strict : Strict rest) : Strict (a :: b :: c :: d :: e :: f :: rest) := by
  obtain ⟨highRange, lowRange, -⟩ := charOfPair_eq_some.mp isChar
  obtain ⟨first, second, third, -, highIs⟩ := unitOfThree_eq_some.mp isHigh
  obtain ⟨fourth, fifth, sixth, -, lowIs⟩ := unitOfThree_eq_some.mp isLow
  have := tail_iff.mp second
  have := tail_iff.mp third
  have := tail_iff.mp fifth
  have := tail_iff.mp sixth
  have highLead : a = 0xed := UInt8.toNat_inj.mp (show a.toNat = 237 by omega)
  have lowLead : d = 0xed := UInt8.toNat_inj.mp (show d.toNat = 237 by omega)
  rw [highLead, lowLead]
  refine .pair (lead_iff.mpr ?_) third (lead_iff.mpr ?_) sixth strict
  · change 160 ≤ b.toNat ∧ b.toNat < 176
    omega
  · change 176 ≤ e.toNat ∧ e.toNat < 192
    omega

theorem decodeChars_flatMap (chars : List Char) :
    decodeChars (chars.flatMap encodeChar) = some chars := by
  induction chars with
  | nil => rfl
  | cons first rest ih => rw [List.flatMap_cons, decodeChars_encodeChar, ih, Option.map_some]

/-- Whatever is read as characters is strict, and is what they are written as. -/
theorem strict_of_decodeChars {bytes : List UInt8} {chars : List Char}
    (found : decodeChars bytes = some chars) : Strict bytes ∧ chars.flatMap encodeChar = bytes := by
  induction bytes using decodeChars.induct generalizing chars with
  | case1 =>
    cases found
    exact ⟨.nil, rfl⟩
  | case3 a rest positive small ih =>
    rw [decodeChars_of_one positive small, Option.map_eq_some_iff] at found
    obtain ⟨others, found, rfl⟩ := found
    obtain ⟨strict, same⟩ := ih found
    exact ⟨.one (UInt8.pos_iff_ne_zero.mpr positive) small strict,
      by rw [List.flatMap_cons, same, encodeChar_of_one positive small]; rfl⟩
  | case5 a _ _ b rest char isChar ih =>
    rw [decodeChars_of_two isChar, Option.map_eq_some_iff] at found
    obtain ⟨others, found, rfl⟩ := found
    obtain ⟨strict, same⟩ := ih found
    exact ⟨strict_of_two isChar strict,
      by rw [List.flatMap_cons, same, encodeChar_of_two isChar]; rfl⟩
  | case8 a _ _ b _ c rest unit isUnit whole ih =>
    rw [decodeChars_of_three isUnit whole, Option.map_eq_some_iff] at found
    obtain ⟨others, found, rfl⟩ := found
    obtain ⟨strict, same⟩ := ih found
    exact ⟨strict_of_three isUnit whole strict,
      by rw [List.flatMap_cons, same, encodeChar_of_three isUnit whole]; rfl⟩
  | case9 a _ _ b _ c high isHigh _ d e f rest char isPair ih =>
    obtain ⟨low, isLow, isChar⟩ := Option.bind_eq_some_iff.mp isPair
    rw [decodeChars_of_pair isHigh isLow isChar, Option.map_eq_some_iff] at found
    obtain ⟨others, found, rfl⟩ := found
    obtain ⟨strict, same⟩ := ih found
    exact ⟨strict_of_pair isHigh isLow isChar strict,
      by rw [List.flatMap_cons, same, encodeChar_of_pair isHigh isLow isChar]; rfl⟩
  | case2 | case4 | case6 | case7 | case10 | case11 =>
    rw [decodeChars.eq_def] at found
    simp_all only [↓reduceIte, reduceCtorEq]

/-- The strict sequences are those that can be read. -/
theorem exists_chars_of_strict {bytes : List UInt8} (strict : Strict bytes) :
    ∃ chars, decodeChars bytes = some chars := by
  induction strict with
  | nil => exact ⟨[], rfl⟩
  | @one a rest positive small _ ih =>
    obtain ⟨chars, found⟩ := ih
    exact ⟨Char.ofNat a.toNat :: chars,
      by rw [decodeChars_of_one (UInt8.pos_iff_ne_zero.mp positive) small, found, Option.map_some]⟩
  | @zero rest _ ih =>
    obtain ⟨chars, found⟩ := ih
    have isChar : charOfTwo 0xc0 0x80 = some (Char.ofNat 0) := by decide
    exact ⟨Char.ofNat 0 :: chars, by rw [decodeChars_of_two isChar, found, Option.map_some]⟩
  | @two a b rest first second _ ih =>
    obtain ⟨chars, found⟩ := ih
    have := tail_iff.mp second
    have first : 194 ≤ a.toNat ∧ a.toNat < 224 := lead_iff.mp first
    have code := toNat_ofNat_of_valid (a.toNat * 64 + b.toNat - 12416) (.inl (by omega))
    have isChar : charOfTwo a b = some (Char.ofNat (a.toNat * 64 + b.toNat - 12416)) := by
      rw [charOfTwo_eq_some, code]
      exact ⟨by omega, second, by omega, by omega⟩
    exact ⟨_, by rw [decodeChars_of_two isChar, found, Option.map_some]⟩
  | @three a b c rest first second third needed whole _ ih =>
    obtain ⟨chars, found⟩ := ih
    have lead : 224 ≤ a.toNat ∧ a.toNat < 240 := lead_iff.mp first
    have := tail_iff.mp second
    have := tail_iff.mp third
    have needed : a.toNat = 224 → 160 ≤ b.toNat := fun same =>
      UInt8.le_iff_toNat_le.mp (needed (UInt8.toNat_inj.mp same))
    have whole : a.toNat = 237 → b.toNat < 160 := fun same =>
      UInt8.lt_iff_toNat_lt.mp (whole (UInt8.toNat_inj.mp same))
    have isUnit : unitOfThree a b c = some (a.toNat * 4096 + b.toNat * 64 + c.toNat - 925824) :=
      unitOfThree_eq_some.mpr ⟨lead, second, third, by omega, by omega⟩
    exact ⟨_, by rw [decodeChars_of_three isUnit (by omega), found, Option.map_some]⟩
  | @pair b c e f rest high third low sixth _ ih =>
    obtain ⟨chars, found⟩ := ih
    have high : 160 ≤ b.toNat ∧ b.toNat < 176 := lead_iff.mp high
    have low : 176 ≤ e.toNat ∧ e.toNat < 192 := lead_iff.mp low
    have := tail_iff.mp third
    have := tail_iff.mp sixth
    have lead : (0xed : UInt8).toNat = 237 := rfl
    have isHigh :
        unitOfThree 0xed b c = some (0xd000 + (b.toNat - 128) * 64 + (c.toNat - 128)) := by
      rw [unitOfThree_eq_some, lead]
      exact ⟨by omega, tail_iff.mpr (by omega), third, by omega, by omega⟩
    have isLow : unitOfThree 0xed e f = some (0xd000 + (e.toNat - 128) * 64 + (f.toNat - 128)) := by
      rw [unitOfThree_eq_some, lead]
      exact ⟨by omega, tail_iff.mpr (by omega), sixth, by omega, by omega⟩
    obtain ⟨char, isChar⟩ := exists_charOfPair (0xd000 + (b.toNat - 128) * 64 + (c.toNat - 128))
      (0xd000 + (e.toNat - 128) * 64 + (f.toNat - 128)) (by omega) (by omega)
    exact ⟨_, by rw [decodeChars_of_pair isHigh isLow isChar, found, Option.map_some]⟩

theorem decode_encode (text : String) : decode (encode text) = some text := by
  rw [decode, encode, decodeChars_flatMap, Option.map_some, String.ofList_toList]

theorem strict_of_decode {bytes : List UInt8} {text : String} (found : decode bytes = some text) :
    Strict bytes ∧ encode text = bytes := by
  obtain ⟨chars, read, rfl⟩ := Option.map_eq_some_iff.mp found
  rw [encode, String.toList_ofList]
  exact strict_of_decodeChars read

/-- A text is read from its own bytes and from no others. -/
theorem decode_eq_some_iff {bytes : List UInt8} {text : String} :
    decode bytes = some text ↔ encode text = bytes :=
  ⟨fun found => (strict_of_decode found).2, fun same => same ▸ decode_encode text⟩

theorem strict_iff {bytes : List UInt8} : Strict bytes ↔ ∃ text, decode bytes = some text := by
  constructor
  · intro strict
    obtain ⟨chars, found⟩ := exists_chars_of_strict strict
    exact ⟨String.ofList chars, by rw [decode, found, Option.map_some]⟩
  · rintro ⟨text, found⟩
    exact (strict_of_decode found).1

theorem zero_not_mem_of_strict {bytes : List UInt8} (strict : Strict bytes) : 0 ∉ bytes := by
  have nonzero {byte lower : UInt8} (positive : 0 < lower) (above : lower ≤ byte) : 0 ≠ byte :=
    UInt8.ne_of_lt (UInt8.lt_of_lt_of_le positive above)
  induction strict with
  | nil => exact List.not_mem_nil
  | one positive _ _ ih => simp [UInt8.ne_of_lt positive, ih]
  | zero _ ih => simp [ih]
  | two first second _ ih =>
    simp only [List.mem_cons, not_or]
    exact ⟨nonzero (by decide) first.1, nonzero (by decide) second.1, ih⟩
  | three first second third _ _ _ ih =>
    simp only [List.mem_cons, not_or]
    exact ⟨nonzero (by decide) first.1, nonzero (by decide) second.1,
      nonzero (by decide) third.1, ih⟩
  | pair high third low sixth _ ih =>
    simp only [List.mem_cons, not_or]
    exact ⟨by decide, nonzero (by decide) high.1, nonzero (by decide) third.1, by decide,
      nonzero (by decide) low.1, nonzero (by decide) sixth.1, ih⟩

end ModifiedUtf8

/-! ## Texts in pools -/

open ModifiedUtf8 Constant

section Pools

variable {pool : Array PoolEntry} {index : UInt16} {constant : Constant}
  {constants : Array Constant} {position : Nat} {bytes : List UInt8}

/-- Resolving a single entry ends with what it denotes. -/
theorem Constant.resolve_of_denotes (denotes : Denotes pool index constant) :
    ∃ notes, resolve pool (pool.size + 1) index (.start pool.size) = .ok (constant, notes) := by
  have deep : pool.size < pool.size + 1 + ([] : List UInt16).length := Nat.lt_succ_self _
  obtain ⟨-, ⟨found, notes, ended, denotes', -⟩ | ⟨fault, -, nothing⟩⟩ :=
    yields_resolve Marks.nil deep deep _ (Resolution.Sound.start pool)
  · rw [denotes.unique denotes']
    exact ⟨notes, ended⟩
  · exact absurd denotes (nothing constant)

theorem Constant.Meanings.getElem?_eq (meanings : Meanings pool constants)
    (denotes : Denotes pool index constant) : constants[index.toNat - 1]? = some constant := by
  obtain ⟨found, here, denotes'⟩ := meanings.denoted index denotes.namesEntry
  rw [here, denotes.unique denotes']

/-- A text of a pool that is resolved can be read, and is found where the text stands. -/
theorem Constant.Meanings.exists_text (meanings : Meanings pool constants)
    (small : pool.size ≤ 65534) (here : pool[position]? = some (.utf8 bytes)) :
    ∃ text, decode bytes = some text ∧ constants[position]? = some (.utf8 text) := by
  obtain ⟨inside, -⟩ := Array.getElem?_eq_some_iff.mp here
  have found := (entryAt?_index small inside).trans here
  obtain ⟨constant, there, denotes⟩ := meanings.denoted _ ⟨_, found, nofun⟩
  obtain ⟨text, decodes, rfl⟩ := (denotes_iff found).mp denotes
  rw [toNat_index small inside, Nat.add_sub_cancel] at there
  exact ⟨text, decodes, there⟩

end Pools

theorem PoolBuilder.denotes_utf8 {text : String} {before after : PoolBuilder}
    (grown : (utf8 text before).2 ≤ after) (small : after.Small) :
    Denotes after.entries (utf8 text before).1 (.utf8 text) :=
  .utf8 (entryAt?_of_le grown (entryAt?_utf8 text (small.of_le grown))) (decode_encode text)

/-- **Texts are written and read without loss**, and exactly the strict byte sequences are read. A
text that is put into a pool is what its index stands for, however the pool grows, and entries of
different bytes never stand for equal texts. -/
theorem texts_faithful :
    (∀ text : String, decode (encode text) = some text ∧ 0 ∉ encode text) ∧
    (∀ (bytes : List UInt8) (text : String), decode bytes = some text → encode text = bytes) ∧
    (∀ bytes : List UInt8, (∃ text, decode bytes = some text) ↔ Strict bytes) ∧
    (∀ (text : String) (before after : PoolBuilder), (PoolBuilder.utf8 text before).2 ≤ after →
      after.Small →
      (∃ notes, resolve after.entries (after.entries.size + 1) (PoolBuilder.utf8 text before).1
        (.start after.entries.size) = .ok (.utf8 text, notes)) ∧
      ∀ constants, resolvePool after.entries = .ok constants →
        constants[(PoolBuilder.utf8 text before).1.toNat - 1]? = some (.utf8 text)) ∧
    ∀ (pool : Array PoolEntry) (constants : Array Constant), pool.size ≤ 65534 →
      resolvePool pool = .ok constants →
      ∀ (first second : Nat) (left right : List UInt8), pool[first]? = some (.utf8 left) →
        pool[second]? = some (.utf8 right) → left ≠ right →
        ∃ text other, constants[first]? = some (.utf8 text) ∧
          constants[second]? = some (.utf8 other) ∧ text ≠ other := by
  refine ⟨fun text => ?_, fun bytes text found => (strict_of_decode found).2,
    fun bytes => strict_iff.symm, fun text before after grown small => ?_,
    fun pool constants small resolved first second left right here there different => ?_⟩
  · have written := decode_encode text
    exact ⟨written, zero_not_mem_of_strict (strict_of_decode written).1⟩
  · have denotes := PoolBuilder.denotes_utf8 grown small
    refine ⟨resolve_of_denotes denotes, fun constants resolved => ?_⟩
    have size : after.entries.size ≤ 65534 := Nat.le_of_lt_succ small
    exact (meanings_of_resolvePool size resolved).getElem?_eq denotes
  · have meanings := meanings_of_resolvePool small resolved
    obtain ⟨text, decodes, found⟩ := meanings.exists_text small here
    obtain ⟨other, decodesToo, foundToo⟩ := meanings.exists_text small there
    refine ⟨text, other, found, foundToo, ?_⟩
    rintro rfl
    exact different ((strict_of_decode decodes).2.symm.trans (strict_of_decode decodesToo).2)

end JavaMachine
