import JavaMachine.Proofs.Instruction.Range

/-! # Integers in words

An int or a long stands for an integer in the range of its width. What the machine does with words is
measured here against the operation on unbounded integers: the sum, the quotient, the shift of the
words stands for the exact one in two's complement (`Int.bmod`), and a conversion gives the one integer
in the range of its target that leaves the same remainder (`IntegerType.eq_of_modEq`). -/

namespace JavaMachine

/-! ## Representation -/

namespace IntegerKind

/-- The number of bits of an integer of the kind. -/
def width : IntegerKind → Nat
  | int => 32
  | long => 64

/-- The kind among all kinds of number. -/
def number : IntegerKind → NumberKind
  | int => .int
  | long => .long

/-- The value of the kind that an integer is cut to. -/
def wrap : IntegerKind → Int → Value
  | int, n => .int (.ofInt n)
  | long, n => .long (.ofInt n)

/-- A value of the kind stands for an integer. -/
inductive Represents : IntegerKind → Value → Int → Prop
  | int (word : Int32) : Represents .int (.int word) word.toInt
  | long (word : Int64) : Represents .long (.long word) word.toInt

variable {kind : IntegerKind} {value : Value} {n : Int}

theorem represents_wrap (kind : IntegerKind) (n : Int) :
    kind.Represents (kind.wrap n) (n.bmod (2 ^ kind.width)) := by
  cases kind with
  | int => exact Int32.toInt_ofInt ▸ .int (.ofInt n)
  | long => exact Int64.toInt_ofInt ▸ .long (.ofInt n)

theorem Represents.bmod_eq (represents : kind.Represents value n) :
    n.bmod (2 ^ kind.width) = n := by
  cases represents with
  | int word => exact word.toInt_bmod
  | long word => exact word.toInt_bmod

theorem Represents.bounds (represents : kind.Represents value n) :
    -2 ^ (kind.width - 1) ≤ n ∧ n < 2 ^ (kind.width - 1) := by
  cases represents with
  | int word => exact ⟨word.le_toInt, word.toInt_lt⟩
  | long word => exact ⟨word.le_toInt, word.toInt_lt⟩

/-- A value stands for no integer but one. -/
theorem Represents.eq_wrap (represents : kind.Represents value n) : value = kind.wrap n := by
  cases represents with
  | int word => exact congrArg Value.int word.ofInt_toInt.symm
  | long word => exact congrArg Value.long word.ofInt_toInt.symm

end IntegerKind

/-! ## Division -/

namespace ArithmeticOp

/-- The quotient and the remainder make up the dividend again, cut to any width. -/
theorem bmod_div_rem (a b : Int) (m : Nat) :
    ((div.exact a b).bmod m * b + (rem.exact a b).bmod m).bmod m = a.bmod m := by
  rw [Int.add_bmod_bmod, ← Int.bmod_add_bmod, Int.bmod_mul_bmod, Int.bmod_add_bmod]
  exact congrArg (Int.bmod · m) (Int.tdiv_mul_add_tmod a b)

/-- The value that an operation on ints gives: there is none if it is to divide by zero. -/
theorem map_onInts (op : ArithmeticOp) (a b : Int32) :
    (op.onInts a b).map .int = if op.divides = true ∧ b.toInt = 0 then none
      else some (IntegerKind.int.wrap (op.exact a.toInt b.toInt)) := by
  simp only [onInts_eq, ← Int32.toInt_inj, apply_ite (Option.map Value.int)]
  rfl

theorem map_onLongs (op : ArithmeticOp) (a b : Int64) :
    (op.onLongs a b).map .long = if op.divides = true ∧ b.toInt = 0 then none
      else some (IntegerKind.long.wrap (op.exact a.toInt b.toInt)) := by
  simp only [onLongs_eq, ← Int64.toInt_inj, apply_ite (Option.map Value.long)]
  rfl

end ArithmeticOp

/-! ## Shifts -/

namespace ShiftOp

/-- The shift of an integer of some width by so many places: to the left it is multiplied by a power of
two, to the right it is divided, rounding down, and the shift that fills with zeros divides the
integer without a sign that has the same bits. -/
def onIntegers (width : Nat) : ShiftOp → Int → Nat → Int
  | left, n, places => n * 2 ^ places
  | right, n, places => n.fdiv (2 ^ places)
  | unsignedRight, n, places => (n % 2 ^ width) / 2 ^ places

/-- The integer without a sign of some bits is that with a sign, as a remainder. -/
theorem toNat_eq_emod {width : Nat} (bits : BitVec width) :
    (bits.toNat : Int) = bits.toInt % 2 ^ width := by
  have least : (0 : Int) ≤ bits.toNat := Int.natCast_nonneg _
  have bound : (bits.toNat : Int) < 2 ^ width := by exact_mod_cast bits.isLt
  have signed : bits.toInt % ((2 ^ width : Nat) : Int) = bits.toNat % ((2 ^ width : Nat) : Int) := by
    rw [BitVec.toInt_eq_toNat_bmod, Int.bmod_emod]
  rw [Nat.cast_pow, Nat.cast_ofNat] at signed
  rw [signed, Int.emod_eq_of_lt least bound]

theorem toInt_exact {width : Nat} (op : ShiftOp) (bits : BitVec width) (places : Nat) :
    (op.exact bits places).toInt = (op.onIntegers width bits.toInt places).bmod (2 ^ width) := by
  cases op with
  | left =>
    rw [exact, BitVec.toInt_shiftLeft, Nat.shiftLeft_eq, Nat.cast_mul, Nat.cast_pow, Nat.cast_ofNat,
      onIntegers, BitVec.toInt_eq_toNat_bmod, Int.bmod_mul_bmod]
  | right =>
    rw [onIntegers, Int.fdiv_eq_ediv_of_nonneg _ (by positivity), ← BitVec.toInt_bmod_cancel, exact,
      BitVec.toInt_sshiftRight, Int.shiftRight_eq_div_pow, Nat.cast_pow, Nat.cast_ofNat]
  | unsignedRight =>
    rw [onIntegers, ← toNat_eq_emod, exact, BitVec.toInt_eq_toNat_bmod, BitVec.toNat_ushiftRight,
      Nat.shiftRight_eq_div_pow, Int.natCast_ediv, Nat.cast_pow, Nat.cast_ofNat]

end ShiftOp

/-! ## Conversions -/

/-- The types that integers are converted to. -/
inductive IntegerType where
  | byte
  | char
  | short
  | int
  | long
  deriving DecidableEq, Inhabited

namespace IntegerType

/-- The number of bits of the type. -/
def bits : IntegerType → Nat
  | byte => 8
  | char | short => 16
  | int => 32
  | long => 64

/-- The least integer of the type. -/
def least : IntegerType → Int
  | char => 0
  | type => -2 ^ (type.bits - 1)

/-- The integers of the type. -/
def Contains (type : IntegerType) (n : Int) : Prop :=
  type.least ≤ n ∧ n < type.least + 2 ^ type.bits

/-- The instruction that converts to the type. -/
def opcode : IntegerType → Opcode
  | byte => .narrow .byte
  | char => .narrow .char
  | short => .narrow .short
  | int => .convert .long .int
  | long => .convert .int .long

/-- The kind that is converted. -/
def source : IntegerType → IntegerKind
  | int => .long
  | _ => .int

/-- The kind that holds integers of the type. -/
def target : IntegerType → IntegerKind
  | long => .long
  | _ => .int

/-- Of the integers that leave the same remainder a type has no two. -/
theorem eq_of_modEq {type : IntegerType} {n m : Int} (has : type.Contains n) (has' : type.Contains m)
    (same : n ≡ m [ZMOD 2 ^ type.bits]) : n = m := by
  unfold Contains at has has'
  have close : |m - n| < 2 ^ type.bits := by
    rw [abs_lt]
    omega
  have none := Int.eq_zero_of_abs_lt_dvd same.dvd close
  omega

/-- What a value of the source kind is converted to. -/
def convert : IntegerType → Value → Value
  | byte, .int word => .int (NarrowKind.byte.cut word)
  | char, .int word => .int (NarrowKind.char.cut word)
  | short, .int word => .int (NarrowKind.short.cut word)
  | int, .long word => .int word.toInt32
  | long, .int word => .long word.toInt64
  | _, value => value

theorem modEq_bmod (n : Int) (places : Nat) : n.bmod (2 ^ places) ≡ n [ZMOD 2 ^ places] := by
  have same : n.bmod (2 ^ places) % ((2 ^ places : Nat) : Int) = n % ((2 ^ places : Nat) : Int) :=
    Int.bmod_emod
  rw [Nat.cast_pow, Nat.cast_ofNat] at same
  exact same

theorem toInt_unsignedShort (word : Int32) : (Value.unsignedShort word).toInt = word.toInt % 2 ^ 16 := by
  have masked : (Value.unsignedShort word).toBitVec.toNat = word.toBitVec.toNat % 2 ^ 16 := by
    rw [Value.unsignedShort, Int32.toBitVec_and, BitVec.toNat_and]
    exact Nat.and_two_pow_sub_one_eq_mod _ 16
  have signed : word.toInt = word.toBitVec.toInt := rfl
  have signed' : (Value.unsignedShort word).toInt = (Value.unsignedShort word).toBitVec.toInt := rfl
  rw [signed, signed', BitVec.toInt_eq_toNat_cond, BitVec.toInt_eq_toNat_cond, masked]
  split <;> split <;> omega

/-- A conversion gives an integer of its type that leaves the same remainder. -/
theorem exists_convert {type : IntegerType} {value : Value} {a : Int}
    (operand : type.source.Represents value a) :
    ∃ n, type.Contains n ∧ n ≡ a [ZMOD 2 ^ type.bits] ∧
      type.target.Represents (type.convert value) n := by
  cases type with
  | byte =>
    cases operand with
    | int word =>
      refine ⟨_, ?_, ?_, .int _⟩
      · obtain ⟨low, high⟩ := Value.signedByte_bounds word
        exact ⟨low, Int.lt_add_one_of_le high⟩
      · change (Value.signedByte word).toInt ≡ _ [ZMOD _]
        rw [Value.signedByte, Int8.toInt_toInt32, Int32.toInt_toInt8]
        exact modEq_bmod _ 8
  | char =>
    cases operand with
    | int word =>
      refine ⟨_, ?_, ?_, .int _⟩
      · change 0 ≤ (Value.unsignedShort word).toInt ∧ (Value.unsignedShort word).toInt < 0 + 2 ^ 16
        rw [toInt_unsignedShort]
        omega
      · change (Value.unsignedShort word).toInt ≡ _ [ZMOD _]
        rw [toInt_unsignedShort]
        exact Int.mod_modEq _ _
  | short =>
    cases operand with
    | int word =>
      refine ⟨_, ?_, ?_, .int _⟩
      · obtain ⟨low, high⟩ := Value.signedShort_bounds word
        exact ⟨low, Int.lt_add_one_of_le high⟩
      · change (Value.signedShort word).toInt ≡ _ [ZMOD _]
        rw [Value.signedShort, Int16.toInt_toInt32, Int32.toInt_toInt16]
        exact modEq_bmod _ 16
  | int =>
    cases operand with
    | long word =>
      refine ⟨_, ⟨word.toInt32.le_toInt, word.toInt32.toInt_lt⟩, ?_, .int _⟩
      rw [Int64.toInt_toInt32]
      exact modEq_bmod _ 32
  | long =>
    cases operand with
    | int word =>
      refine ⟨_, ⟨word.toInt64.le_toInt, word.toInt64.toInt_lt⟩, ?_, .long _⟩
      rw [Int32.toInt_toInt64]

end IntegerType

/-! ## Order -/

/-- What a condition says of two integers. -/
def Condition.Compares : Condition → Int → Int → Prop
  | eq, a, b => a = b
  | ne, a, b => a ≠ b
  | lt, a, b => a < b
  | ge, a, b => a ≥ b
  | gt, a, b => a > b
  | le, a, b => a ≤ b

/-- Ints are compared with their signs. -/
theorem Condition.holds_iff (condition : Condition) (a b : Int32) :
    condition.holds a b = true ↔ condition.Compares a.toInt b.toInt := by
  cases condition with
  | eq => simp only [holds, Compares, beq_iff_eq, Int32.toInt_inj]
  | ne => simp only [holds, Compares, bne_iff_ne, ne_eq, Int32.toInt_inj]
  | lt => simp only [holds, Compares, decide_eq_true_eq, Int32.lt_iff_toInt_lt]
  | ge => simp only [holds, Compares, decide_eq_true_eq, ge_iff_le, Int32.le_iff_toInt_le]
  | gt => simp only [holds, Compares, decide_eq_true_eq, gt_iff_lt, Int32.lt_iff_toInt_lt]
  | le => simp only [holds, Compares, decide_eq_true_eq, Int32.le_iff_toInt_le]

/-- The order of two longs, as an int, is the sign of their difference. -/
theorem toInt_orderingInt_compare (a b : Int64) :
    (orderingInt (compare a b)).toInt = (a.toInt - b.toInt).sign := by
  have order : compare a b = compare a.toInt b.toInt := by
    change compareOfLessAndEq a b = _
    simp only [compareOfLessAndEq, Int64.lt_iff_toInt_lt, ← Int64.toInt_inj]
    rfl
  rw [order]
  rcases Int.lt_trichotomy a.toInt b.toInt with below | same | above
  · rw [compare_lt_iff_lt.mpr below, Int.sign_eq_neg_one_of_neg (by omega)]
    rfl
  · rw [compare_eq_iff_eq.mpr same, same, Int.sub_self]
    rfl
  · rw [compare_gt_iff_gt.mpr above, Int.sign_eq_one_of_pos (by omega)]
    rfl

end JavaMachine
