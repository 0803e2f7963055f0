import JavaMachine.Proofs.Assembler.Sharing
import JavaMachine.Proofs.Assembler.Transfer

/-! # Items that push numbers

A number is pushed by an opcode of its own, from the operand of an instruction, or from the constant
pool. In a class that has the numbers of the pool under their indices, the code of such an item pushes
the number and goes on behind it (`CodeBuilder.Assembled.pushes`). It is the number that the item
names, bit for bit, unless it is a zero and shares an entry with the zero of the other sign. -/

namespace JavaMachine

open CodeBuilder (Holds holds_cons Lays Within)

/-! ## Numbers -/

/-- The value that a numeric constant of a pool stands for. -/
def PoolEntry.value? : PoolEntry → Option Value
  | integer value => some (.int value)
  | float bits => some (.float bits)
  | long value => some (.long value)
  | double bits => some (.double bits)
  | _ => none

theorem PoolEntry.isWide_of_value? {entry : PoolEntry} {value : Value}
    (number : entry.value? = some value) : value.isWide = entry.isWide := by
  cases entry <;> cases number <;> rfl

/-- Whatever a constant becomes is as wide. -/
theorem PoolEntry.isWide_of_keptAmong {asked : List PoolEntry} {entry : PoolEntry} {value : Value}
    (number : (entry.keptAmong asked).value? = some value) : value.isWide = entry.isWide := by
  rw [isWide_of_value? number]
  rcases keptAmong_cases asked entry with same | alike
  · rw [same]
  · rcases same_cases alike with ⟨same, -⟩ | ⟨a, b, first, rfl, -⟩ | ⟨a, b, first, rfl, -⟩
    · rw [same]
    · rw [first]
      rfl
    · rw [first]
      rfl

/-- The value that a resolved numeric constant stands for. -/
def Constant.value? : Constant → Option Value
  | integer value => some (.int value)
  | float bits => some (.float bits)
  | long value => some (.long value)
  | double bits => some (.double bits)
  | _ => none

/-- A class has the numbers of a pool under their indices. -/
def LinkedClass.HasNumbers (c : LinkedClass) (pool : PoolBuilder) : Prop :=
  ∀ index entry value, entryAt? pool.entries index = some entry → entry.value? = some value →
    ∃ constant, c.constant? index = some constant ∧ constant.value? = some value

theorem LinkedClass.HasNumbers.of_le {c : LinkedClass} {before after : PoolBuilder}
    (numbers : c.HasNumbers after) (grows : before ≤ after) : c.HasNumbers before :=
  fun index entry value found => numbers index entry value (PoolBuilder.entryAt?_of_le grows found)

namespace CodeItem

/-- The number that an item names, if it pushes one. -/
def given? : CodeItem → Option Value
  | iconst value => some (.int value)
  | lconst value => some (.long value)
  | fconst bits => some (.float bits)
  | dconst bits => some (.double bits)
  | _ => none

/-- The number that an item pushes, if floating-point constants were asked for in an order. -/
def pushed? (asked : List PoolEntry) (item : CodeItem) : Option Value :=
  match item.floats with
  | [] => item.given?
  | entry :: _ => (entry.keptAmong asked).value?

/-- The number is the one that the item names, unless it is a zero and the zero of the other sign was
asked for. -/
theorem pushed?_eq {item : CodeItem} {asked : List PoolEntry}
    (alone : ∀ entry ∈ item.floats, ∀ other, entry.opposite? = some other → other ∉ asked) :
    item.pushed? asked = item.given? := by
  unfold pushed?
  cases own : item.floats with
  | nil => rfl
  | cons entry rest =>
    rw [own] at alone
    have kept : entry.keptAmong asked = entry :=
      PoolEntry.keptAmong_eq (alone entry List.mem_cons_self)
    change (entry.keptAmong asked).value? = _
    rw [kept]
    cases item with
    | fconst bits | dconst bits =>
      unfold floats at own
      dsimp only at own
      split at own
      · cases own
      · cases own
        rfl
    | _ => cases own

end CodeItem

/-! ## Executing the code of a number -/

namespace Step

variable {services : Services} {state : StepState} {index : UInt16} {constant : Constant}
  {value : Value}

theorem constantAt_eq (found : state.frame.owner.constant? index = some constant) :
    constantAt index services state = .ok constant state := by
  unfold constantAt
  simp only [Bind.bind, ReaderT.bind, EStateM.bind, frame, found]
  rfl

theorem loadConstant_eq (found : state.frame.owner.constant? index = some constant)
    (number : constant.value? = some value) (narrow : value.isWide = false) :
    loadConstant index services state = Step.constant value services state := by
  unfold loadConstant
  rw [bind_eq_of_ok (constantAt_eq found)]
  cases constant with
  | integer | float =>
    cases number
    rfl
  | long | double =>
    cases number
    cases narrow
  | _ => cases number

theorem loadWideConstant_eq (found : state.frame.owner.constant? index = some constant)
    (number : constant.value? = some value) (wide : value.isWide = true) :
    loadWideConstant index services state = Step.constant value services state := by
  unfold loadWideConstant
  rw [bind_eq_of_ok (constantAt_eq found)]
  cases constant with
  | long | double =>
    cases number
    rfl
  | integer | float =>
    cases number
    cases wide
  | _ => cases number

end Step

namespace Execution

open Step (proceeding)

variable {owner : LinkedClass} {value : Value}

/-- An instruction that pushes a value goes on behind it, or fails if there is no room. -/
theorem advance_of_constant {frame : Frame} {callers : List Frame} {services : Services}
    {machine : Machine} {cursor : Nat}
    (ended : Step.instruction services ⟨machine, frame, frame.pc⟩ =
      proceeding (Step.constant value) services ⟨machine, frame, cursor⟩) :
    advance ⟨frame, callers⟩ services machine =
      transferring (Frame.push value) (fun _ => goOn cursor callers) frame services machine := by
  unfold transferring
  cases pushed : Frame.push value frame with
  | ok _ after =>
    exact advance_of_proceeds (ended.trans (Step.bind_eq_of_ok (Step.onFrame_ok pushed)))
  | error error after =>
    exact advance_of_fatal (ended.trans (Step.bind_eq_of_error (Step.onFrame_error pushed)))

/-- Code that pushes a value in methods of a class and goes on behind it. -/
def Pushes (owner : LinkedClass) (value : Value) (bytes : List UInt8) : Prop :=
  ∀ frame callers, frame.owner = owner → Holds frame.code.bytes.toList frame.pc bytes →
    advance ⟨frame, callers⟩ = transferring (Frame.push value)
      (fun _ => goOn (frame.pc + bytes.length) callers) frame

/-- An instruction that ends with pushing a value after it has read its operands. -/
theorem pushes_of_execute {op : Opcode} {operands : List UInt8}
    (opcode : Opcode.ofByte? op.byte = some op)
    (executes : ∀ services state, state.frame.owner = owner → Step.Ahead state operands →
      Step.execute op services state = proceeding (Step.constant value) services
        { state with cursor := state.cursor + operands.length }) :
    Pushes owner value (op.byte :: operands) := by
  intro frame callers owned holds
  obtain ⟨atOpcode, atOperands⟩ := holds_cons.mp holds
  funext services machine
  have begins : Step.instruction services ⟨machine, frame, frame.pc⟩ = _ :=
    instruction_of_opcode op opcode atOpcode
  rw [List.length_cons, Nat.add_comm operands.length, ← Nat.add_assoc]
  exact advance_of_constant (begins.trans (executes services _ owned atOperands))

/-- An opcode that pushes a value by itself. -/
theorem pushes_opcode {op : Opcode} (opcode : Opcode.ofByte? op.byte = some op)
    (executes : Step.execute op = proceeding (Step.constant value)) : Pushes owner value [op.byte] :=
  pushes_of_execute opcode fun _ _ _ _ => by rw [executes]; rfl

theorem pushes_bipush {number : Int32} (fits : number.toInt8.toInt32 = number) :
    Pushes owner (.int number) [Opcode.bipush.byte, number.toInt8.toUInt8] := by
  refine pushes_of_execute (Opcode.ofByte?_byte (by decide)) fun services state _ ahead => ?_
  have read : Step.readSignedByte services state = .ok number { state with cursor := state.cursor + 1 } := by
    unfold Step.readSignedByte
    rw [Step.bind_eq_of_ok (Step.readByte_of_ahead ahead), Int8.toInt8_toUInt8, fits]
    rfl
  exact Step.proceeding_congr (Step.bind_eq_of_ok read)

theorem pushes_sipush {number : Int32} (fits : number.toInt16.toInt32 = number) :
    Pushes owner (.int number) (Opcode.sipush.byte :: Writer.u16 number.toInt16.toUInt16) := by
  refine pushes_of_execute (Opcode.ofByte?_byte (by decide)) fun services state _ ahead => ?_
  have read : Step.readSignedShort services state = _ := Step.readSignedShort_of_ahead ahead
  rw [Int16.toInt16_toUInt16, fits] at read
  exact Step.proceeding_congr (Step.bind_eq_of_ok read)

/-- The code that loads a constant of one slot. -/
def constantBytes (index : UInt16) : List UInt8 :=
  if index ≤ 0xff then [Opcode.ldc.byte, index.toUInt8]
  else Opcode.ldcWide.byte :: Writer.u16 index

theorem pushes_constantBytes {index : UInt16} {constant : Constant}
    (found : owner.constant? index = some constant) (number : constant.value? = some value)
    (narrow : value.isWide = false) : Pushes owner value (constantBytes index) := by
  unfold constantBytes
  split
  · next short =>
    refine pushes_of_execute (Opcode.ofByte?_byte (by decide)) fun services state owned ahead => ?_
    have same : index.toUInt8.toUInt16 = index := by
      apply UInt16.toNat_inj.mp
      rw [UInt8.toNat_toUInt16, UInt16.toNat_toUInt8]
      exact Nat.mod_eq_of_lt (Nat.lt_succ_of_le (UInt16.le_iff_toNat_le.mp short))
    refine Step.proceeding_congr ((Step.bind_eq_of_ok (Step.readByte_of_ahead ahead)).trans ?_)
    rw [same]
    exact Step.loadConstant_eq (owned ▸ found) number narrow
  · refine pushes_of_execute (Opcode.ofByte?_byte (by decide)) fun services state owned ahead => ?_
    refine Step.proceeding_congr ((Step.bind_eq_of_ok (Step.readShort_of_ahead ahead)).trans ?_)
    exact Step.loadConstant_eq (owned ▸ found) number narrow

theorem pushes_wideConstant {index : UInt16} {constant : Constant}
    (found : owner.constant? index = some constant) (number : constant.value? = some value)
    (wide : value.isWide = true) :
    Pushes owner value (Opcode.ldc2Wide.byte :: Writer.u16 index) := by
  refine pushes_of_execute (Opcode.ofByte?_byte (by decide)) fun services state owned ahead => ?_
  refine Step.proceeding_congr ((Step.bind_eq_of_ok (Step.readShort_of_ahead ahead)).trans ?_)
  exact Step.loadWideConstant_eq (owned ▸ found) number wide

end Execution

/-! ## Emitting the code of a number -/

namespace Opcode

open Step (proceeding)

variable {op : Opcode}

/-- The small ints have opcodes one after the other. -/
theorem exists_iconst {number : Int32} (least : -1 ≤ number) (greatest : number ≤ 5) :
    ∃ op, Opcode.iconstZero.byte + number.toInt8.toUInt8 = op.byte ∧ ofByte? op.byte = some op ∧
      Step.execute op = proceeding (Step.constant (.int number)) := by
  obtain ⟨digit, rfl⟩ : ∃ digit : Fin 7, number = Int32.ofNat digit.val - 1 := by
    have above : -1 ≤ number.toInt := Int32.le_iff_toInt_le.mp least
    have below : number.toInt ≤ 5 := Int32.le_iff_toInt_le.mp greatest
    have all (digit : Int) (above : -1 ≤ digit) (below : digit ≤ 5) :
        ∃ position : Fin 7, digit = (Int32.ofNat position.val - 1).toInt := by
      interval_cases digit <;> decide
    obtain ⟨digit, same⟩ := all number.toInt above below
    exact ⟨digit, Int32.toInt_inj.mp same⟩
  have byte : Opcode.iconstZero.byte + (Int32.ofNat digit.val - 1).toInt8.toUInt8 =
      (Opcode.iconst digit).byte := by
    clear least greatest
    decide +kernel +revert
  have opcode : Opcode.ofByte? (Opcode.iconst digit).byte = some (Opcode.iconst digit) := by
    apply Opcode.ofByte?_byte
    clear byte least greatest
    decide +revert
  exact ⟨.iconst digit, byte, opcode, rfl⟩

theorem execute_of_ofLong? {value : Int64} (short : ofLong? value = some op) :
    ofByte? op.byte = some op ∧ Step.execute op = proceeding (Step.constant (.long value)) := by
  unfold ofLong? at short
  split at short
  · next zero =>
    cases short
    subst zero
    exact ⟨ofByte?_byte (by decide), rfl⟩
  · split at short
    · next one =>
      cases short
      subst one
      exact ⟨ofByte?_byte (by decide), rfl⟩
    · cases short

/-- The bits of the numbers that have opcodes. -/
theorem ofInt_short :
    Single.ofInt 0 = 0 ∧ Single.ofInt 1 = 0x3f800000 ∧ Single.ofInt 2 = 0x40000000 ∧
      Double.ofInt 0 = 0 ∧ Double.ofInt 1 = 0x3ff0000000000000 := by
  decide +kernel

theorem execute_of_ofFloat? {bits : UInt32} (short : ofFloat? bits = some op) :
    ofByte? op.byte = some op ∧ Step.execute op = proceeding (Step.constant (.float bits)) := by
  obtain ⟨none, single, double, -⟩ := ofInt_short
  have pushes (number : Fin 3) : Step.execute (.fconst number) =
      proceeding (Step.constant (.float (Single.ofInt number.val))) := rfl
  unfold ofFloat? at short
  split at short
  · next zero =>
    cases short
    have same : Single.ofInt (0 : Fin 3).val = bits := none.trans zero.symm
    exact ⟨ofByte?_byte (by decide), same ▸ pushes 0⟩
  · split at short
    · next one =>
      cases short
      have same : Single.ofInt (1 : Fin 3).val = bits := single.trans one.symm
      exact ⟨ofByte?_byte (by decide), same ▸ pushes 1⟩
    · split at short
      · next two =>
        cases short
        have same : Single.ofInt (2 : Fin 3).val = bits := double.trans two.symm
        exact ⟨ofByte?_byte (by decide), same ▸ pushes 2⟩
      · cases short

theorem execute_of_ofDouble? {bits : UInt64} (short : ofDouble? bits = some op) :
    ofByte? op.byte = some op ∧ Step.execute op = proceeding (Step.constant (.double bits)) := by
  obtain ⟨-, -, -, none, single⟩ := ofInt_short
  have pushes (number : Fin 2) : Step.execute (.dconst number) =
      proceeding (Step.constant (.double (Double.ofInt number.val))) := rfl
  unfold ofDouble? at short
  split at short
  · next zero =>
    cases short
    have same : Double.ofInt (0 : Fin 2).val = bits := none.trans zero.symm
    exact ⟨ofByte?_byte (by decide), same ▸ pushes 0⟩
  · split at short
    · next one =>
      cases short
      have same : Double.ofInt (1 : Fin 2).val = bits := single.trans one.symm
      exact ⟨ofByte?_byte (by decide), same ▸ pushes 1⟩
    · cases short

end Opcode

namespace CodeBuilder

open Execution (Pushes constantBytes pushes_opcode pushes_bipush pushes_sipush pushes_constantBytes
  pushes_wideConstant)

variable {owner : LinkedClass} {value : Value} {before after : CodeBuilder} {entry kept : PoolEntry}
  {asked earlier later : List PoolEntry}

/-- Code that pushes a value was emitted. -/
def Emitted (owner : LinkedClass) (value : Value) (before after : CodeBuilder) : Prop :=
  ∃ bytes, Lays (Piece.ofBytes bytes) before after ∧ Pushes owner value bytes

theorem emitted_opcode {op : Opcode} {slots : Nat}
    (executes : Opcode.ofByte? op.byte = some op ∧
      Step.execute op = Step.proceeding (Step.constant value))
    (ended : (do adjust 0 slots; emitOp op [] : Assembling Unit) before = .ok ((), after)) :
    Emitted owner value before after :=
  ⟨[op.byte], lays_quiet_seq (quiet_lays.within_adjust 0 slots) (fun _ => lays_emit _) _ _ _ ended,
    pushes_opcode executes.1 executes.2⟩

theorem lays_emitConstant (index : UInt16) :
    Within (Lays (Piece.ofBytes (constantBytes index))) (emitConstant index) := by
  unfold emitConstant constantBytes
  refine lays_quiet_seq (quiet_lays.within_adjust 0 1) fun _ => ?_
  split
  · exact lays_emit _
  · exact lays_emit _

theorem lays_emitWideConstant (index : UInt16) :
    Within (Lays (Piece.ofBytes (Opcode.ldc2Wide.byte :: Writer.u16 index)))
      (emitWideConstant index) :=
  lays_quiet_seq (quiet_lays.within_adjust 0 2) fun _ => lays_emit _

/-- A constant of one slot is loaded by its index in the pool. -/
theorem emitted_constant (small : after.pool.Small) (numbers : owner.HasNumbers after.pool)
    (ended : (inPool (PoolBuilder.add entry) >>= emitConstant) before = .ok ((), after))
    (named : (PoolBuilder.add entry before.pool).2.Small →
      entryAt? (PoolBuilder.add entry before.pool).2.entries (PoolBuilder.add entry before.pool).1 =
        some kept)
    (number : kept.value? = some value) (narrow : value.isWide = false) :
    Emitted owner value before after := by
  obtain ⟨index, middle, added, ended⟩ := Assembling.exists_of_bind ended
  cases added
  have grows := closed_le.stepwise.within_emitConstant _ _ _ _ ended
  obtain ⟨constant, found, same⟩ := numbers.of_le grows _ _ _ (named (small.of_le grows)) number
  have quiet : Lays [] before { before with pool := (PoolBuilder.add entry before.pool).2 } :=
    lays_nil rfl rfl rfl (fun _ => rfl) rfl
  exact ⟨_, quiet.trans (lays_emitConstant _ _ _ _ ended), pushes_constantBytes found same narrow⟩

/-- A constant of two slots is loaded by its index in the pool. -/
theorem emitted_wideConstant (small : after.pool.Small) (numbers : owner.HasNumbers after.pool)
    (ended : (inPool (PoolBuilder.add entry) >>= emitWideConstant) before = .ok ((), after))
    (named : (PoolBuilder.add entry before.pool).2.Small →
      entryAt? (PoolBuilder.add entry before.pool).2.entries (PoolBuilder.add entry before.pool).1 =
        some kept)
    (number : kept.value? = some value) (wide : value.isWide = true) :
    Emitted owner value before after := by
  obtain ⟨index, middle, added, ended⟩ := Assembling.exists_of_bind ended
  cases added
  have grows := closed_le.stepwise.within_emitWideConstant _ _ _ _ ended
  obtain ⟨constant, found, same⟩ := numbers.of_le grows _ _ _ (named (small.of_le grows)) number
  have quiet : Lays [] before { before with pool := (PoolBuilder.add entry before.pool).2 } :=
    lays_nil rfl rfl rfl (fun _ => rfl) rfl
  exact ⟨_, quiet.trans (lays_emitWideConstant _ _ _ _ ended), pushes_wideConstant found same wide⟩

/-- A constant that is no zero of a floating-point type is named by its index. -/
theorem entryAt?_plain {pool : PoolBuilder} (plain : entry.opposite? = none)
    (small : (PoolBuilder.add entry pool).2.Small) :
    entryAt? (PoolBuilder.add entry pool).2.entries (PoolBuilder.add entry pool).1 = some entry := by
  have kept : entry.keptAmong pool.entries.toList = entry :=
    PoolEntry.keptAmong_eq fun other opposite => nomatch plain.symm.trans opposite
  rw [PoolBuilder.entryAt?_add entry small, kept]

theorem emitted_int {number : Int32} (small : after.pool.Small)
    (numbers : owner.HasNumbers after.pool)
    (ended : emitInt number before = .ok ((), after)) :
    Emitted owner (.int number) before after := by
  unfold emitInt at ended
  split at ended
  · next short =>
    obtain ⟨op, byte, opcode, executes⟩ := Opcode.exists_iconst short.1 short.2
    rw [byte] at ended
    exact emitted_opcode ⟨opcode, executes⟩ ended
  · split at ended
    · next fits =>
      exact ⟨_, lays_quiet_seq (quiet_lays.within_adjust 0 1) (fun _ => lays_emit _) _ _ _ ended,
        pushes_bipush fits⟩
    · split at ended
      · next fits =>
        exact ⟨_, lays_quiet_seq (quiet_lays.within_adjust 0 1) (fun _ => lays_emit _) _ _ _ ended,
          pushes_sipush fits⟩
      · exact emitted_constant small numbers ended (entryAt?_plain rfl) rfl rfl

theorem emitted_long {number : Int64} (small : after.pool.Small)
    (numbers : owner.HasNumbers after.pool)
    (ended : emitLong number before = .ok ((), after)) :
    Emitted owner (.long number) before after := by
  unfold emitLong at ended
  cases short : Opcode.ofLong? number with
  | some op =>
    simp only [short] at ended
    exact emitted_opcode (Opcode.execute_of_ofLong? short) ended
  | none =>
    simp only [short] at ended
    exact emitted_wideConstant small numbers ended (entryAt?_plain rfl) rfl rfl

theorem emitted_float {bits : UInt32} (small : after.pool.Small)
    (numbers : owner.HasNumbers after.pool) (settled : before.pool.Settled earlier)
    (number : (CodeItem.fconst bits).pushed? (earlier ++ (CodeItem.fconst bits).floats) = some value)
    (ended : emitFloat bits before = .ok ((), after)) :
    Emitted owner value before after := by
  unfold emitFloat at ended
  cases short : Opcode.ofFloat? bits with
  | some op =>
    simp only [short] at ended
    have own : (CodeItem.fconst bits).floats = [] := by simp [CodeItem.floats, short]
    rw [CodeItem.pushed?, own] at number
    cases number
    exact emitted_opcode (Opcode.execute_of_ofFloat? short) ended
  | none =>
    simp only [short] at ended
    have own : (CodeItem.fconst bits).floats = [.float bits] := by simp [CodeItem.floats, short]
    rw [CodeItem.pushed?, own] at number
    exact emitted_constant small numbers ended (fun few => settled.entryAt?_add rfl few) number
      (PoolEntry.isWide_of_keptAmong number)

theorem emitted_double {bits : UInt64} (small : after.pool.Small)
    (numbers : owner.HasNumbers after.pool) (settled : before.pool.Settled earlier)
    (number : (CodeItem.dconst bits).pushed? (earlier ++ (CodeItem.dconst bits).floats) = some value)
    (ended : emitDouble bits before = .ok ((), after)) :
    Emitted owner value before after := by
  unfold emitDouble at ended
  cases short : Opcode.ofDouble? bits with
  | some op =>
    simp only [short] at ended
    have own : (CodeItem.dconst bits).floats = [] := by simp [CodeItem.floats, short]
    rw [CodeItem.pushed?, own] at number
    cases number
    exact emitted_opcode (Opcode.execute_of_ofDouble? short) ended
  | none =>
    simp only [short] at ended
    have own : (CodeItem.dconst bits).floats = [.double bits] := by simp [CodeItem.floats, short]
    rw [CodeItem.pushed?, own] at number
    exact emitted_wideConstant small numbers ended (fun few => settled.entryAt?_add rfl few) number
      (PoolEntry.isWide_of_keptAmong number)

/-- What the floating-point constant of an item becomes is known once it was asked for. -/
theorem pushed?_append {item : CodeItem} :
    item.pushed? (earlier ++ item.floats ++ later) = item.pushed? (earlier ++ item.floats) := by
  unfold CodeItem.pushed?
  cases own : item.floats with
  | nil => rfl
  | cons entry rest =>
    have among : entry ∈ earlier ++ entry :: rest :=
      List.mem_append_right _ List.mem_cons_self
    change (entry.keptAmong (earlier ++ entry :: rest ++ later)).value? =
      (entry.keptAmong (earlier ++ entry :: rest)).value?
    rw [PoolEntry.keptAmong_append among]

/-- **Code that pushes the number of an item is emitted for it.** -/
theorem emitted_item {item : CodeItem} (small : after.pool.Small)
    (numbers : owner.HasNumbers after.pool) (settled : before.pool.Settled earlier)
    (number : item.pushed? (earlier ++ item.floats) = some value)
    (ended : CodeBuilder.item item before = .ok ((), after)) :
    Emitted owner value before after := by
  cases item with
  | iconst literal =>
    cases number
    exact emitted_int small numbers ended
  | lconst literal =>
    cases number
    exact emitted_long small numbers ended
  | fconst bits => exact emitted_float small numbers settled number ended
  | dconst bits => exact emitted_double small numbers settled number ended
  | _ => cases number

namespace Assembled

variable {start final : CodeBuilder} {items : List CodeItem} {body : CodeBody Attribute}

/-- **An assembled body pushes the numbers that its items name**, in a class that has the numbers of
the pool: the code of an item pushes its number and goes on with what is behind. -/
theorem pushes (assembled : Assembled start items final body) (small : final.pool.Small)
    (numbers : owner.HasNumbers final.pool) (settled : start.pool.Settled earlier)
    {item : CodeItem} {offset next : Nat} (placed : Placed start items item offset next)
    (number : item.pushed? (earlier ++ items.flatMap CodeItem.floats ++ later) = some value) :
    ∀ frame callers, frame.owner = owner → frame.At body offset →
      Execution.advance ⟨frame, callers⟩ = Execution.transferring (Frame.push value)
        (fun _ => Execution.goOn next callers) frame := by
  obtain ⟨front, back, before, after, rfl, reached, added, behind, rfl, rfl⟩ :=
    assembled.exists_around placed
  have grows : after.pool ≤ final.pool := le_of_items behind
  have settledHere := asks_items reached earlier settled
  rw [List.flatMap_append, List.flatMap_cons, ← List.append_assoc, ← List.append_assoc,
    List.append_assoc _ _ later, pushed?_append] at number
  obtain ⟨bytes, lays, pushes⟩ :=
    emitted_item (small.of_le grows) (numbers.of_le grows) settledHere number added
  obtain ⟨holds, -⟩ :=
    holds_of_emits assembled.fresh reached lays.emits behind assembled.finished
  intro frame callers owned place
  have code : frame.code.bytes.toList = body.code := by rw [place.code]
  have next : after.code.size = frame.pc + bytes.length := by
    rw [lays.emits.size, Piece.blank_ofBytes, place.pc]
  rw [Piece.encode_ofBytes, ← code, ← place.pc] at holds
  rw [next]
  exact pushes frame callers owned holds

end Assembled

end CodeBuilder

end JavaMachine
