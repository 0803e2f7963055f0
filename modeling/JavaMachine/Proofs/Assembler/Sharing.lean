import JavaMachine.Number.FloatingPoint
import JavaMachine.Proofs.Assembler.Code

/-! # Floating-point constants that share an entry

A pool stores constants once that count as the same, and floating-point constants count as the same
when they are equal as numbers. Those are the ones of the same bits, save that a NaN is the same as
nothing, and the two zeros. So which zero an index names depends on which was asked for first:
`PoolEntry.keptAmong` says what a constant becomes by the constants that were asked for, and
`PoolBuilder.Settled` that a pool holds what they became. -/

namespace JavaMachine

open Float.Model (Format UnpackedFloat)
open Float.Model.UnpackedFloat (unpack pack isNaNBits packedNaN packedZero)

/-! ## Equal as numbers -/

namespace FloatingPoint

section Bits

variable {spec : Format} {a b : BitVec spec.numBits}

theorem unpack_eq_notANumber (nan : isNaNBits b) : unpack spec b = .notANumber := by
  simp only [isNaNBits, decide_eq_true_eq] at nan
  simp [unpack, nan]

theorem unpack_pack_unpack (ordinary : 2 ≤ spec.exponentBits) (b : BitVec spec.numBits) :
    unpack spec (pack spec (unpack spec b)) = unpack spec b := by
  rw [UnpackedFloat.pack_unpack b ordinary]
  split
  · next nan => rw [UnpackedFloat.unpack_packedNaN, unpack_eq_notANumber nan]
  · rfl

theorem pack_unpack_of_number (ordinary : 2 ≤ spec.exponentBits)
    (number : unpack spec b ≠ .notANumber) : pack spec (unpack spec b) = b := by
  rw [UnpackedFloat.pack_unpack b ordinary, if_neg]
  exact fun nan => number (unpack_eq_notANumber nan)

/-- Numbers are equal if their bits are, or if they are the two zeros. -/
theorem eq_or_zeros_of_beq (ordinary : 2 ≤ spec.exponentBits)
    (alike : (unpack spec a).beq (unpack spec b)) :
    a = b ∨ (a = packedZero spec .positive ∧ b = packedZero spec .negative) ∨
      (a = packedZero spec .negative ∧ b = packedZero spec .positive) := by
  obtain ⟨left, right, same⟩ := (UnpackedFloat.beq_iff_ne_notANumber_and_eq _ _).mp alike
  rw [← pack_unpack_of_number ordinary left, ← pack_unpack_of_number ordinary right]
  rcases same with same | ⟨first, second⟩ | ⟨first, second⟩
  · exact .inl (congrArg _ same)
  · rw [first, second]
    exact .inr (.inl ⟨rfl, rfl⟩)
  · rw [first, second]
    exact .inr (.inr ⟨rfl, rfl⟩)

end Bits

theorem beq_trans {a b c : UnpackedFloat} (near : a.beq b) (far : b.beq c) : a.beq c := by
  rw [UnpackedFloat.beq_iff_ne_notANumber_and_eq] at near far ⊢
  grind

theorem beq_self_of_beq {a b : UnpackedFloat} (alike : a.beq b) : b.beq b := by
  rw [UnpackedFloat.beq_iff_ne_notANumber_and_eq] at alike ⊢
  exact ⟨alike.2.1, alike.2.1, .inl rfl⟩

theorem beq_single (a b : UInt32) :
    (Float32.ofBits a == Float32.ofBits b) = (Single.unpack a).beq (Single.unpack b) := by
  have unpacked (bits : UInt32) : (Float32.Model.ofBits bits).unpack = Single.unpack bits :=
    unpack_pack_unpack (by decide) _
  change (Float32.Model.ofBits a).unpack.beq (Float32.Model.ofBits b).unpack = _
  rw [unpacked, unpacked]

theorem beq_double (a b : UInt64) :
    (Float.ofBits a == Float.ofBits b) = (Double.unpack a).beq (Double.unpack b) := by
  have unpacked (bits : UInt64) : (Float.Model.ofBits bits).unpack = Double.unpack bits :=
    unpack_pack_unpack (by decide) _
  change (Float.Model.ofBits a).unpack.beq (Float.Model.ofBits b).unpack = _
  rw [unpacked, unpacked]

end FloatingPoint

/-! ## Constants that count as the same -/

namespace PoolEntry

open FloatingPoint

variable {found entry other : PoolEntry} {asked front : List PoolEntry}

/-- The number that a floating-point constant stands for; none for one of another kind. -/
def number? : PoolEntry → Option UnpackedFloat
  | float bits => some (Single.unpack bits)
  | double bits => some (Double.unpack bits)
  | _ => none

theorem same_float (a b : UInt32) :
    (float a).same (float b) = (Single.unpack a).beq (Single.unpack b) := beq_single a b

theorem same_double (a b : UInt64) :
    (double a).same (double b) = (Double.unpack a).beq (Double.unpack b) := beq_double a b

/-- Constants that count as the same are equal, or floats that stand for equal numbers, or doubles that
do. -/
theorem same_cases (alike : found.same entry) :
    found = entry ∧ entry.same entry ∨
      (∃ a b, found = float a ∧ entry = float b ∧ (Single.unpack a).beq (Single.unpack b)) ∨
      ∃ a b, found = double a ∧ entry = double b ∧ (Double.unpack a).beq (Double.unpack b) := by
  cases found with
  | empty => cases alike
  | float a =>
    cases entry with
    | float b => exact .inr (.inl ⟨a, b, rfl, rfl, same_float a b ▸ alike⟩)
    | _ => cases alike
  | double a =>
    cases entry with
    | double b => exact .inr (.inr ⟨a, b, rfl, rfl, same_double a b ▸ alike⟩)
    | _ => cases alike
  | _ =>
    obtain rfl := eq_of_beq alike
    exact .inl ⟨rfl, alike⟩

theorem isFloat_of_same (alike : found.same entry) : found.isFloat = entry.isFloat := by
  rcases same_cases alike with ⟨rfl, -⟩ | ⟨a, b, rfl, rfl, -⟩ | ⟨a, b, rfl, rfl, -⟩
  all_goals rfl

theorem same_trans (near : found.same entry) (far : entry.same other) : found.same other := by
  rcases same_cases near with ⟨rfl, -⟩ | ⟨a, b, rfl, rfl, equal⟩ | ⟨a, b, rfl, rfl, equal⟩
  · exact far
  · rcases same_cases far with ⟨rfl, -⟩ | ⟨_, c, same, rfl, equal'⟩ | ⟨_, _, same, -, -⟩
    · exact near
    · cases same
      rw [same_float]
      exact beq_trans equal equal'
    · cases same
  · rcases same_cases far with ⟨rfl, -⟩ | ⟨_, _, same, -, -⟩ | ⟨_, c, same, rfl, equal'⟩
    · exact near
    · cases same
    · cases same
      rw [same_double]
      exact beq_trans equal equal'

/-- What is the same as anything is the same as itself. -/
theorem same_self (alike : found.same entry) : entry.same entry := by
  rcases same_cases alike with ⟨-, itself⟩ | ⟨a, b, rfl, rfl, equal⟩ | ⟨a, b, rfl, rfl, equal⟩
  · exact itself
  · rw [same_float]
    exact beq_self_of_beq equal
  · rw [same_double]
    exact beq_self_of_beq equal

/-- The zero of the other sign, of a floating-point zero. -/
def opposite? : PoolEntry → Option PoolEntry
  | float bits =>
    if bits = 0 then some (float 0x80000000) else if bits = 0x80000000 then some (float 0) else none
  | double bits =>
    if bits = 0 then some (double 0x8000000000000000)
    else if bits = 0x8000000000000000 then some (double 0) else none
  | _ => none

/-- Only the two zeros count as the same without being equal. -/
theorem eq_or_opposite_of_same (alike : found.same entry) :
    found = entry ∨ entry.opposite? = some found := by
  rcases same_cases alike with ⟨rfl, -⟩ | ⟨a, b, rfl, rfl, equal⟩ | ⟨a, b, rfl, rfl, equal⟩
  · exact .inl rfl
  · have positive : UInt32.ofBitVec (packedZero Format.binary32 .positive) = 0 := by decide +kernel
    have negative : UInt32.ofBitVec (packedZero Format.binary32 .negative) = 0x80000000 := by
      decide +kernel
    rcases eq_or_zeros_of_beq (by decide) equal with same | ⟨first, second⟩ | ⟨first, second⟩
    · exact .inl (congrArg float (UInt32.toBitVec_inj.mp same))
    · obtain rfl : a = 0 := (congrArg UInt32.ofBitVec first).trans positive
      obtain rfl : b = 0x80000000 := (congrArg UInt32.ofBitVec second).trans negative
      exact .inr rfl
    · obtain rfl : a = 0x80000000 := (congrArg UInt32.ofBitVec first).trans negative
      obtain rfl : b = 0 := (congrArg UInt32.ofBitVec second).trans positive
      exact .inr rfl
  · have positive : UInt64.ofBitVec (packedZero Format.binary64 .positive) = 0 := by decide +kernel
    have negative :
        UInt64.ofBitVec (packedZero Format.binary64 .negative) = 0x8000000000000000 := by
      decide +kernel
    rcases eq_or_zeros_of_beq (by decide) equal with same | ⟨first, second⟩ | ⟨first, second⟩
    · exact .inl (congrArg double (UInt64.toBitVec_inj.mp same))
    · obtain rfl : a = 0 := (congrArg UInt64.ofBitVec first).trans positive
      obtain rfl : b = 0x8000000000000000 := (congrArg UInt64.ofBitVec second).trans negative
      exact .inr rfl
    · obtain rfl : a = 0x8000000000000000 := (congrArg UInt64.ofBitVec first).trans negative
      obtain rfl : b = 0 := (congrArg UInt64.ofBitVec second).trans positive
      exact .inr rfl

/-! ## What a constant becomes -/

theorem keptAmong_eq_or_opposite (asked : List PoolEntry) (entry : PoolEntry) :
    entry.keptAmong asked = entry ∨ entry.opposite? = some (entry.keptAmong asked) := by
  rcases keptAmong_cases asked entry with same | alike
  · exact .inl same
  · exact eq_or_opposite_of_same alike

/-- A constant becomes another one only if that was asked for. -/
theorem keptAmong_mem (asked : List PoolEntry) (entry : PoolEntry) :
    entry.keptAmong asked = entry ∨ entry.keptAmong asked ∈ asked := by
  unfold keptAmong
  cases search : asked.find? (·.same entry) with
  | none => exact .inl rfl
  | some found => exact .inr (List.mem_of_find?_eq_some search)

/-- A constant stays what it is, unless it is a zero and the zero of the other sign was asked for. -/
theorem keptAmong_eq (alone : ∀ other, entry.opposite? = some other → other ∉ asked) :
    entry.keptAmong asked = entry := by
  rcases keptAmong_eq_or_opposite asked entry with same | opposite
  · exact same
  · exact (keptAmong_mem asked entry).resolve_right (alone _ opposite)

/-- What a constant became once it was asked for does not change afterwards. -/
theorem keptAmong_append (among : entry ∈ front) (back : List PoolEntry) :
    entry.keptAmong (front ++ back) = entry.keptAmong front := by
  unfold keptAmong
  rw [List.find?_append]
  cases search : front.find? (·.same entry) with
  | some found => rfl
  | none =>
    have itself := List.find?_eq_none.mp search entry among
    have nowhere : back.find? (·.same entry) = none :=
      List.find?_eq_none.mpr fun found _ alike => itself (same_self alike)
    rw [nowhere]
    rfl

end PoolEntry

namespace PoolBuilder

variable {asked : List PoolEntry} {pool before after : PoolBuilder} {entry : PoolEntry}

/-- A pool holds what the floating-point constants became that were asked for. -/
def Settled (asked : List PoolEntry) (pool : PoolBuilder) : Prop :=
  ∀ entry : PoolEntry, entry.isFloat = true →
    pool.floats.find? (·.same entry) = asked.find? (·.same entry)

theorem find?_floats (isFloat : entry.isFloat = true) :
    pool.floats.find? (·.same entry) = pool.entries.toList.find? (·.same entry) := by
  have both (found : PoolEntry) :
      decide (found.isFloat = true ∧ found.same entry = true) = found.same entry := by
    cases alike : found.same entry with
    | false => simp
    | true => simp [PoolEntry.isFloat_of_same alike, isFloat]
  rw [floats, List.find?_filter]
  exact congrArg (List.find? · _) (funext both)

theorem floats_append (entries : after.entries.toList = pool.entries.toList ++ taken entry)
    (isFloat : entry.isFloat = true) : after.floats = pool.floats ++ [entry] := by
  have filler : PoolEntry.empty.isFloat = false := rfl
  have own : (taken entry).filter PoolEntry.isFloat = [entry] := by
    unfold taken
    split
    · simp [isFloat, filler]
    · simp [isFloat]
  rw [floats, entries, List.filter_append, own, floats]

/-- A constant that is asked for is settled with those before it. -/
theorem Settled.add (settled : pool.Settled asked) (isFloat : entry.isFloat = true) :
    (add entry pool).2.Settled (asked ++ [entry]) := by
  intro other otherFloat
  rw [List.find?_append, ← settled other otherFloat]
  rcases add_cases entry pool with ⟨position, found, -, search, added⟩ | ⟨after, -, entries, added⟩
  · rw [added]
    cases kept : pool.floats.find? (·.same other) with
    | some kept => rfl
    | none =>
      rw [← find?_floats isFloat] at search
      have alike : found.same entry := by simpa using List.find?_some search
      have unlike : ¬ entry.same other := fun likewise =>
        List.find?_eq_none.mp kept found (List.mem_of_find?_eq_some search)
          (PoolEntry.same_trans alike likewise)
      simp [unlike]
  · rw [added, floats_append entries isFloat, List.find?_append]

/-- The index of a constant that is asked for names what it becomes. -/
theorem Settled.entryAt?_add (settled : pool.Settled asked) (isFloat : entry.isFloat = true)
    (small : (PoolBuilder.add entry pool).2.Small) :
    entryAt? (PoolBuilder.add entry pool).2.entries (PoolBuilder.add entry pool).1 =
      some (entry.keptAmong (asked ++ [entry])) := by
  rw [PoolBuilder.entryAt?_add entry small, PoolEntry.keptAmong, PoolEntry.keptAmong,
    ← find?_floats isFloat, settled entry isFloat, List.find?_append]
  cases asked.find? (·.same entry) with
  | some found => rfl
  | none =>
    rw [Option.none_or]
    cases itself : entry.same entry with
    | true => simp [itself]
    | false => simp [itself]

/-- One pool grows into another by floating-point constants that were asked for, and by constants of
other kinds. -/
def Asks (asked : List PoolEntry) (before after : PoolBuilder) : Prop :=
  ∀ earlier, before.Settled earlier → after.Settled (earlier ++ asked)

theorem asks_of_floats (same : after.floats = before.floats) : Asks [] before after := by
  intro earlier settled entry isFloat
  rw [same, List.append_nil]
  exact settled entry isFloat

theorem asks_add (pool : PoolBuilder) (isFloat : entry.isFloat = true) :
    Asks [entry] pool (add entry pool).2 :=
  fun _ settled => settled.add isFloat

theorem Asks.trans {middle : PoolBuilder} {others : List PoolEntry} (near : Asks asked before middle)
    (far : Asks others middle after) : Asks (asked ++ others) before after := by
  intro earlier settled
  rw [← List.append_assoc]
  exact far _ (near earlier settled)

/-- Constants of other kinds make no difference. -/
theorem Asks.of_floats {middle : PoolBuilder} (asks : Asks asked before middle)
    (same : after.floats = middle.floats) : Asks asked before after := by
  rw [← List.append_nil asked]
  exact asks.trans (asks_of_floats same)

end PoolBuilder

/-! ## Items that ask for constants -/

/-- The floating-point constant that an item asks the pool for, if it does: one that no opcode
pushes. -/
def CodeItem.floats : CodeItem → List PoolEntry
  | fconst bits => if (Opcode.ofFloat? bits).isSome then [] else [.float bits]
  | dconst bits => if (Opcode.ofDouble? bits).isSome then [] else [.double bits]
  | _ => []

namespace CodeBuilder

open PoolBuilder (Asks asks_add asks_of_floats)

variable {before after : CodeBuilder} {items : List CodeItem}

theorem steady_floats :
    Steady fun before after : CodeBuilder => after.pool.floats = before.pool.floats where
  refl _ := rfl
  trans near far := far.trans near
  names _ plain := plain
  slots _ _ := rfl
  ends _ := rfl
  learn _ _ _ := rfl
  locals _ _ := rfl
  room _ _ := rfl
  bytes _ _ := rfl
  offset _ _ _ _ := rfl

theorem asks_emitFloat {bits : UInt32} (ended : emitFloat bits before = .ok ((), after)) :
    Asks (CodeItem.fconst bits).floats before.pool after.pool := by
  unfold emitFloat at ended
  cases short : Opcode.ofFloat? bits with
  | some op =>
    have nothing : (CodeItem.fconst bits).floats = [] := by simp [CodeItem.floats, short]
    simp only [short] at ended
    rw [nothing]
    exact asks_of_floats (steady_floats.seq (steady_floats.within_adjust 0 1)
      (fun _ => steady_floats.within_emitOp op []) _ _ _ ended)
  | none =>
    have own : (CodeItem.fconst bits).floats = [.float bits] := by simp [CodeItem.floats, short]
    simp only [short] at ended
    obtain ⟨index, middle, added, ended⟩ := Assembling.exists_of_bind ended
    cases added
    rw [own]
    exact (asks_add before.pool rfl).of_floats
      (steady_floats.within_emitConstant _ _ _ _ ended)

theorem asks_emitDouble {bits : UInt64} (ended : emitDouble bits before = .ok ((), after)) :
    Asks (CodeItem.dconst bits).floats before.pool after.pool := by
  unfold emitDouble at ended
  cases short : Opcode.ofDouble? bits with
  | some op =>
    have nothing : (CodeItem.dconst bits).floats = [] := by simp [CodeItem.floats, short]
    simp only [short] at ended
    rw [nothing]
    exact asks_of_floats (steady_floats.seq (steady_floats.within_adjust 0 2)
      (fun _ => steady_floats.within_emitOp op []) _ _ _ ended)
  | none =>
    have own : (CodeItem.dconst bits).floats = [.double bits] := by simp [CodeItem.floats, short]
    simp only [short] at ended
    obtain ⟨index, middle, added, ended⟩ := Assembling.exists_of_bind ended
    cases added
    rw [own]
    exact (asks_add before.pool rfl).of_floats
      (steady_floats.within_emitWideConstant _ _ _ _ ended)

/-- **An item asks for its own floating-point constant only.** -/
theorem asks_item {item : CodeItem} (ended : CodeBuilder.item item before = .ok ((), after)) :
    Asks item.floats before.pool after.pool := by
  by_cases single : ∃ bits, item = .fconst bits
  · obtain ⟨bits, rfl⟩ := single
    exact asks_emitFloat ended
  · by_cases double : ∃ bits, item = .dconst bits
    · obtain ⟨bits, rfl⟩ := double
      exact asks_emitDouble ended
    · have none : item.floats = [] := by
        cases item with
        | fconst bits => exact absurd ⟨bits, rfl⟩ single
        | dconst bits => exact absurd ⟨bits, rfl⟩ double
        | _ => rfl
      rw [none]
      refine asks_of_floats (steady_floats.within_item item (fun bits same => absurd ⟨bits, same⟩ single)
        (fun bits same => absurd ⟨bits, same⟩ double) (fun label _ => ?_)
        (fun start stop target type _ => ?_)
        (fun _ same => same ▸ within_modify fun _ => rfl) _ _ _ ended)
      · intro before result after ended
        rcases bindLabel_cases ended with ⟨-, labels, rfl⟩ | ⟨-, rfl⟩
        · rfl
        · rfl
      · intro before result after ended
        obtain ⟨pool, catchType, -, plain, rfl⟩ := addHandler_eq_ok ended
        exact plain

theorem asks_items (ended : items.forM CodeBuilder.item before = .ok ((), after)) :
    Asks (items.flatMap CodeItem.floats) before.pool after.pool := by
  rw [List.forM_eq_forM] at ended
  induction items generalizing before with
  | nil =>
    cases ended
    exact asks_of_floats rfl
  | cons first rest ih =>
    rw [List.forM_cons] at ended
    obtain ⟨_, middle, began, ended⟩ := Assembling.exists_of_bind ended
    exact (asks_item began).trans (ih ended)

end CodeBuilder

end JavaMachine
