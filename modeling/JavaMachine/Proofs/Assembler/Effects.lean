import JavaMachine.Proofs.Assembler.Locals
import JavaMachine.Proofs.Assembler.Pushes
import JavaMachine.Proofs.Assembler.Requests
import JavaMachine.Proofs.Instruction.Members
import JavaMachine.Proofs.Instruction.Still

/-! # What the code of an item does to the stack

The code of an item takes as many slots off the stack of a frame as are counted for the item, puts
as many on it, and goes on behind it (`Step.Goes`). What a field holds has to be of the type of the
field for that, and the stack has to hold whole values (`Frame.Conforms`). The code of a call ends
with the call (`CodeBuilder.calls_of_emitCall`). -/

namespace JavaMachine

open CodeBuilder (Holds holds_cons)
open Operation (bind_of_ok bind_of_error exists_of_bind_ok)

theorem FieldType.slots_kind (type : FieldType) : type.kind.slots = type.slots := by
  cases type <;> rfl

/-- What executing the next instruction of a frame relies on: the machine is sound, the stack holds
whole values, and a field that is read has a value of the type that it is read as. -/
structure Frame.Conforms (services : Services) (machine : Machine) (frame : Frame) : Prop where
  sound : machine.Sound services.sources
  slotForm : frame.InSlotForm
  readsStatic (here : frame.code.bytes[frame.pc]? = some Opcode.getstatic.byte) (type : FieldType)
    (value : Value) (after : StepState)
    (ended : Step.readStatic services ⟨machine, frame, frame.pc + 1⟩ = .ok (type, value) after) :
    value.kind = .value type.kind
  readsInstance (here : frame.code.bytes[frame.pc]? = some Opcode.getfield.byte) (type : FieldType)
    (value : Value) (after : StepState)
    (ended : Step.readInstance services ⟨machine, frame, frame.pc + 1⟩ = .ok (type, value) after) :
    value.kind = .value type.kind

namespace Step

variable {services : Services} {machine : Machine} {frame : Frame} {state : StepState}
  {pop push cursor last : Nat} {bytes operands : List UInt8} {action : Step Unit} {op : Opcode}

/-! ## Instructions that go on behind them -/

/-- How an instruction ends that calls no method. If it goes on, it goes on at a place that is
known, and has taken so many slots off the stack and put others on it. It is to blame for a full
stack only if there is no room for the slots before or after it. -/
structure Goes (services : Services) (pop push last : Nat) (frame : Frame)
    (result : EStateM.Result Interruption StepState Next) : Prop where
  proceeds (after : StepState) (ended : result = .ok .proceed after) :
    after.cursor = last ∧ after.frame.depth + pop = frame.depth + push
  callFree (owner : LinkedClass) (index : Nat) (arguments : List Value) (after : StepState) :
    result ≠ .ok (.call owner index arguments) after
  overflows (error : Error) (after : StepState) (ended : result = .error (.fatal error) after)
    (blamed : services.Blames error) :
    frame.code.maxStack < frame.depth ∨ frame.code.maxStack + pop < frame.depth + push

theorem Ran.goes (ran : Ran services pop push last frame (action services state)) :
    Goes services pop push last frame (Step.proceeding action services state) := by
  refine ⟨fun after ended => ?_, fun _ _ _ _ => not_call_of_proceeding,
    fun error after ended blamed => ran.proceeding.overflows error after ended blamed⟩
  obtain ⟨cursor, -, -, moved⟩ := ran.proceeding.completes _ after ended
  exact ⟨cursor, moved⟩

theorem Moves.goes (moves : Moves pop push frame (action services state)) (still : Still action) :
    Goes services pop push state.cursor frame (Step.proceeding action services state) :=
  ⟨fun _ ended => ⟨still.proceeding _ _ _ _ ended, (moves.proceeding.completes _ _ ended).2⟩,
    fun _ _ _ _ => not_call_of_proceeding,
    fun error after ended blamed => moves.proceeding.overflows error after ended blamed.1⟩

/-- What ends a block never goes on. -/
theorem not_proceed_of_endsBlock {after : StepState} (listed : op.stackEffect = some (pop, push))
    (ends : op.endsBlock = true) : execute op services state ≠ .ok .proceed after := by
  intro ended
  cases op with
  | returnValue kind =>
    obtain ⟨_, -, -, clash⟩ := returns_returnValue ended
    cases clash
  | returnVoid => cases ended
  | athrow =>
    obtain ⟨_, _, -, ended⟩ := exists_of_bind_ok ended
    cases ended
  | ret | tableswitch | lookupswitch | goto => cases listed
  | _ => cases ends

theorem goes_execute (builtin : ClassSource.StartsBuiltin services.sources)
    (sound : machine.Sound services.sources) (listed : op.stackEffect = some (pop, push))
    (slotForm : frame.InSlotForm) :
    Goes services pop push cursor frame (execute op services ⟨machine, frame, cursor⟩) := by
  have moves : Moves pop push frame (execute op services ⟨machine, frame, cursor⟩) :=
    moves_execute builtin sound listed slotForm
  refine ⟨fun after ended => ⟨?_, (moves.completes _ _ ended).2⟩,
    fun owner index arguments after ended => ?_,
    fun error after ended blamed => moves.overflows error after ended blamed.1⟩
  · cases ends : op.endsBlock with
    | true => exact absurd ended (not_proceed_of_endsBlock listed ends)
    | false => exact still_execute listed ends _ _ _ _ ended
  · have calls := isCall_of_execute ended
    cases op <;> first | exact calls | cases listed

/-- Bytes are the code of an instruction that goes on behind them. -/
def IsCode (services : Services) (pop push : Nat) (bytes : List UInt8) : Prop :=
  ∃ op operands action, bytes = op.byte :: operands ∧ Opcode.ofByte? op.byte = some op ∧
    execute op = proceeding action ∧ Acts services operands.length pop push action

theorem instruction_of_holds (opcode : Opcode.ofByte? op.byte = some op)
    (holds : Holds frame.code.bytes.toList frame.pc (op.byte :: operands)) :
    instruction services ⟨machine, frame, frame.pc⟩ =
        execute op services ⟨machine, frame, frame.pc + 1⟩ ∧
      Ahead ⟨machine, frame, frame.pc + 1⟩ operands := by
  obtain ⟨atOpcode, atOperands⟩ := holds_cons.mp holds
  exact ⟨Execution.instruction_of_opcode op opcode atOpcode, atOperands⟩

theorem IsCode.goes (isCode : IsCode services pop push bytes)
    (holds : Holds frame.code.bytes.toList frame.pc bytes) :
    Goes services pop push (frame.pc + bytes.length) frame
      (instruction services ⟨machine, frame, frame.pc⟩) := by
  obtain ⟨op, operands, action, rfl, opcode, executes, acts⟩ := isCode
  obtain ⟨begins, -⟩ : instruction services ⟨machine, frame, frame.pc⟩ = _ ∧ _ :=
    instruction_of_holds opcode holds
  rw [begins, executes, List.length_cons, Nat.add_comm operands.length, ← Nat.add_assoc]
  exact (acts machine frame (frame.pc + 1)).goes

/-! ## Local variables -/

theorem effect_increment (index : Nat) (delta : Int32) :
    Effect services machine 0 0 (increment index delta) := by
  refine (draws_onFrame (Frame.draws_getLocal index)).bind (m := 0) fun value _ => ?_
  split
  · exact (draws_onFrame (Frame.draws_setLocal index _)).effect
  · have fails : Draws services machine 0 anything
        (fault (.incrementKind index value.kind) : Step Unit) := draws_fault _
    exact fails.effect

theorem still_increment (index : Nat) (delta : Int32) : Still (increment index delta) := by
  refine (still_onFrame _).bind fun value => ?_
  split
  · exact still_onFrame _
  · exact still_fault _

theorem effect_ret (index : Nat) : Effect services machine 0 0 (ret index) := by
  refine (draws_onFrame (Frame.draws_getLocal index)).bind (m := 0) fun value _ => ?_
  split
  · intro frame cursor
    refine ⟨fun _ _ ended => ?_, fun _ _ => nofun⟩
    cases ended
    exact ⟨Nat.zero_le _, rfl⟩
  · have fails : Draws services machine 0 anything
        (fault (.notReturnAddress index value.kind) : Step Unit) := draws_fault _
    exact fails.effect

/-! ## Fields and calls -/

theorem operand_of_ahead {index : UInt16} {constant : Constant}
    (ahead : Ahead state (Writer.u16 index))
    (found : state.frame.owner.constant? index = some constant) : Operand state constant :=
  ⟨index, fun _ _ => readShort_of_ahead ahead, found⟩

/-- An instruction on a field takes and puts the slots of the type of the field. -/
theorem goes_field (silent : services.Silent) (conforms : frame.Conforms services machine)
    (access : FieldAccess) {index : UInt16} {symbol : FieldSymbol}
    (found : frame.owner.constant? index = some (.fieldref symbol))
    (holds : Holds frame.code.bytes.toList frame.pc (access.opcode.byte :: Writer.u16 index)) :
    Goes services (access.stackEffect symbol.type.slots).1 (access.stackEffect symbol.type.slots).2
      (frame.pc + (access.opcode.byte :: Writer.u16 index).length) frame
      (instruction services ⟨machine, frame, frame.pc⟩) := by
  have here : frame.code.bytes[frame.pc]? = some access.opcode.byte := by
    rw [← Array.getElem?_toList]
    exact (holds_cons.mp holds).1.getElem?
  have opcode : Opcode.ofByte? access.opcode.byte = some access.opcode := by
    cases access <;> exact Opcode.ofByte?_byte (by decide)
  obtain ⟨begins, ahead⟩ : instruction services ⟨machine, frame, frame.pc⟩ = _ ∧ Ahead _ _ :=
    instruction_of_holds opcode holds
  have operand : Operand ⟨machine, frame, frame.pc + 1⟩ (.fieldref symbol) :=
    operand_of_ahead ahead found
  rw [begins, ← symbol.type.slots_kind]
  cases access with
  | getStatic =>
    have ran := ran_getStatic silent operand (conforms.readsStatic here)
    exact ran.goes
  | putStatic =>
    have ran := ran_putStatic silent conforms.slotForm operand
    exact ran.goes
  | getField =>
    have ran := ran_getField silent operand (conforms.readsInstance here)
    exact ran.goes
  | putField =>
    have ran := ran_putField silent conforms.slotForm operand
    rw [Nat.add_comm] at ran
    exact ran.goes

/-- An instruction that calls a method ends behind its operands. -/
theorem calls_of_holds (silent : services.Silent) (kind : CallKind)
    (size : operands.length = if kind = .interface then 4 else 2)
    (holds : Holds frame.code.bytes.toList frame.pc (kind.opcode.byte :: operands)) :
    Calls services (frame.pc + (kind.opcode.byte :: operands).length) frame
      (instruction services ⟨machine, frame, frame.pc⟩) := by
  have opcode : Opcode.ofByte? kind.opcode.byte = some kind.opcode := by
    cases kind <;> exact Opcode.ofByte?_byte (by decide)
  obtain ⟨begins, -⟩ : instruction services ⟨machine, frame, frame.pc⟩ = _ ∧ _ :=
    instruction_of_holds opcode holds
  rw [begins, List.length_cons, size]
  cases kind with
  | virtual => exact calls_invokeVirtual silent (frame.pc + 1)
  | special => exact calls_invokeSpecial silent (frame.pc + 1)
  | static => exact calls_invokeStatic silent (frame.pc + 1)
  | interface => exact calls_invokeInterface silent (frame.pc + 1)

end Step

namespace CodeBuilder

open Step (IsCode Acts proceeding)

variable {services : Services} {before after : CodeBuilder} {pop push : Nat} {α : Type}

/-! ## Emitted code -/

/-- The code of an instruction with an effect on the stack is emitted. -/
def Codes (services : Services) (pop push : Nat) (before after : CodeBuilder) : Prop :=
  ∃ bytes, Lays (Piece.ofBytes bytes) before after ∧ IsCode services pop push bytes

theorem codes_emit {bytes : List UInt8} (isCode : IsCode services pop push bytes) :
    Within (Codes services pop push) (emit bytes) :=
  fun _ _ _ ended => ⟨bytes, lays_emit bytes _ _ _ ended, isCode⟩

theorem codes_emitOp {op : Opcode} {operands : List UInt8} {action : Step Unit}
    (opcode : Opcode.ofByte? op.byte = some op) (executes : Step.execute op = proceeding action)
    (acts : Acts services operands.length pop push action) :
    Within (Codes services pop push) (emitOp op operands) :=
  codes_emit ⟨op, operands, action, rfl, opcode, executes, acts⟩

theorem quiet_seq_codes {step : Assembling α} {next : α → Assembling PUnit}
    (first : Within (Lays []) step)
    (rest : ∀ value, Within (Codes services pop push) (next value)) :
    Within (Codes services pop push) (step >>= next) := by
  intro before result after ended
  obtain ⟨value, middle, began, ended⟩ := Assembling.exists_of_bind ended
  obtain ⟨bytes, lays, isCode⟩ := rest value _ _ _ ended
  exact ⟨bytes, (first _ _ _ began).trans lays, isCode⟩

theorem adjust_seq_codes {slots more : Nat} {next : Assembling PUnit}
    (rest : Within (Codes services pop push) next) :
    Within (Codes services pop push) (do adjust slots more; next) :=
  quiet_seq_codes (quiet_lays.within_adjust slots more) fun _ => rest

theorem inPool_seq_codes {action : PoolBuilding α} {next : α → Assembling PUnit}
    (growing : PoolBuilder.Growing action)
    (rest : ∀ value, Within (Codes services pop push) (next value)) :
    Within (Codes services pop push) (inPool action >>= next) :=
  quiet_seq_codes (quiet_lays.within_inPool growing) rest

theorem codes_opcode (kind : ValueKind) {op : Opcode} {value : Value}
    (executes : Opcode.ofByte? op.byte = some op ∧
      Step.execute op = proceeding (Step.constant value)) (same : value.kind = .value kind) :
    Within (Codes services 0 kind.slots) (do adjust 0 kind.slots; emitOp op []) :=
  adjust_seq_codes (codes_emitOp executes.1 executes.2 (Step.acts_push kind same))

theorem codes_emitConstant (index : UInt16) : Within (Codes services 0 1) (emitConstant index) := by
  refine adjust_seq_codes ?_
  split
  · exact codes_emitOp (Opcode.ofByte?_byte (by decide)) rfl Step.acts_ldc
  · exact codes_emitOp (Opcode.ofByte?_byte (by decide)) rfl Step.acts_ldcWide

theorem codes_emitWideConstant (index : UInt16) :
    Within (Codes services 0 2) (emitWideConstant index) :=
  adjust_seq_codes (codes_emitOp (Opcode.ofByte?_byte (by decide)) rfl Step.acts_ldc2Wide)

theorem codes_emitInt (value : Int32) : Within (Codes services 0 1) (emitInt value) := by
  unfold emitInt
  split
  · next short =>
    obtain ⟨op, byte, opcode, executes⟩ := Opcode.exists_iconst short.1 short.2
    rw [byte]
    exact codes_opcode .int ⟨opcode, executes⟩ rfl
  · split
    · exact adjust_seq_codes (codes_emitOp (Opcode.ofByte?_byte (by decide)) rfl Step.acts_bipush)
    · split
      · exact adjust_seq_codes (codes_emitOp (Opcode.ofByte?_byte (by decide)) rfl Step.acts_sipush)
      · exact inPool_seq_codes (PoolBuilder.plain_integer value).growing fun _ =>
          codes_emitConstant _

theorem codes_emitLong (value : Int64) : Within (Codes services 0 2) (emitLong value) := by
  unfold emitLong
  split
  · next op short => exact codes_opcode .long (Opcode.execute_of_ofLong? short) rfl
  · exact inPool_seq_codes (PoolBuilder.plain_long value).growing fun _ => codes_emitWideConstant _

theorem codes_emitFloat (bits : UInt32) : Within (Codes services 0 1) (emitFloat bits) := by
  unfold emitFloat
  split
  · next op short => exact codes_opcode .float (Opcode.execute_of_ofFloat? short) rfl
  · exact inPool_seq_codes (PoolBuilder.growing_float bits) fun _ => codes_emitConstant _

theorem codes_emitDouble (bits : UInt64) : Within (Codes services 0 2) (emitDouble bits) := by
  unfold emitDouble
  split
  · next op short => exact codes_opcode .double (Opcode.execute_of_ofDouble? short) rfl
  · exact inPool_seq_codes (PoolBuilder.growing_double bits) fun _ => codes_emitWideConstant _

theorem codes_stringConst (text : String) :
    Within (Codes services 0 1) (CodeBuilder.item (.stringConst text)) :=
  inPool_seq_codes (PoolBuilder.plain_string text).growing fun _ => codes_emitConstant _

theorem codes_classConst (name : String) :
    Within (Codes services 0 1) (CodeBuilder.item (.classConst name)) :=
  inPool_seq_codes (PoolBuilder.plain_classRef name).growing fun _ => codes_emitConstant _

theorem codes_classUse (silent : services.Silent) (use : ClassUse) (name : String) :
    Within (Codes services use.pops 1) (CodeBuilder.item (.classUse use name)) := by
  refine adjust_seq_codes (inPool_seq_codes (PoolBuilder.plain_classRef name).growing fun _ => ?_)
  cases use with
  | new => exact codes_emitOp (Opcode.ofByte?_byte (by decide)) rfl (Step.acts_newObject silent)
  | newArray =>
    exact codes_emitOp (Opcode.ofByte?_byte (by decide)) rfl (Step.acts_newReferenceArray silent)
  | checkCast =>
    exact codes_emitOp (Opcode.ofByte?_byte (by decide)) rfl (Step.acts_checkCast silent)
  | instanceOf => exact codes_emitOp (Opcode.ofByte?_byte (by decide)) rfl Step.acts_instanceOf

theorem codes_newarray (silent : services.Silent) (type : UInt8) :
    Within (Codes services 1 1) (CodeBuilder.item (.newarray type)) :=
  adjust_seq_codes
    (codes_emitOp (Opcode.ofByte?_byte (by decide)) rfl (Step.acts_newArray silent))

theorem lays_of_emitPlain {byte : UInt8} (ended : emitPlain byte before = .ok ((), after)) :
    ∃ op, Opcode.ofByte? byte = some op ∧ Lays (Piece.ofBytes [op.byte]) before after := by
  unfold emitPlain at ended
  cases named : Opcode.ofByte? byte with
  | none =>
    simp only [named] at ended
    cases ended
  | some op =>
    cases listed : op.stackEffect with
    | none =>
      simp only [named, listed] at ended
      cases ended
    | some effect =>
      simp only [named, listed] at ended
      refine ⟨op, rfl, ?_⟩
      have lays : Within (Lays (Piece.ofBytes [op.byte])) (do
          adjust effect.1 effect.2
          emitOp op []
          if op.endsBlock then endBlock) := by
        refine lays_quiet_seq (quiet_lays.within_adjust _ _) fun _ => ?_
        refine lays_seq_quiet (lays_emit _) fun _ => ?_
        split
        · exact quiet_lays.within_endBlock
        · exact quiet_lays.within_pure _
      exact lays _ _ _ ended

/-- The code of an instruction that names a constant of the pool. -/
theorem exists_of_inPool (op : Opcode) (operands : UInt16 → List UInt8)
    {action : PoolBuilding UInt16} {slots more : Nat} (growing : PoolBuilder.Growing action)
    (ended : (do
      adjust slots more
      let index ← inPool action
      emitOp op (operands index) : Assembling Unit) before = .ok ((), after)) :
    ∃ pool, after.pool = (action pool).2 ∧
      Lays (Piece.ofBytes (op.byte :: operands (action pool).1)) before after := by
  obtain ⟨_, middle, began, ended⟩ := Assembling.exists_of_bind ended
  obtain ⟨index, between, added, ended⟩ := Assembling.exists_of_bind ended
  have quiet := (quiet_lays.within_adjust _ _ _ _ _ began).trans
    (quiet_lays.within_inPool growing _ _ _ added)
  cases added
  exact ⟨middle.pool, by cases ended; rfl, quiet.trans (lays_emit _ _ _ _ ended)⟩

/-- The code of an instruction on a field names the field. -/
theorem exists_of_emitField {access : FieldAccess} {owner name descriptor : String}
    (ended : emitField access owner name descriptor before = .ok ((), after))
    (small : after.pool.Small) : ∃ type index, FieldType.ofDescriptor? descriptor = some type ∧
      Lays (Piece.ofBytes (access.opcode.byte :: Writer.u16 index)) before after ∧
      Constant.Denotes after.pool.entries index (.fieldref ⟨owner, name, type⟩) := by
  unfold emitField at ended
  cases parsed : FieldType.ofDescriptor? descriptor with
  | none =>
    rw [parsed] at ended
    cases ended
  | some type =>
    rw [parsed] at ended
    obtain ⟨pool, grown, lays⟩ :=
      exists_of_inPool _ _ (PoolBuilder.plain_fieldref owner name descriptor).growing ended
    rw [grown] at small ⊢
    exact ⟨type, _, rfl, lays, PoolBuilder.names_fieldref owner name parsed pool small⟩

/-- The code of a call: its opcode and its operands. -/
theorem exists_of_emitCall {kind : CallKind} {owner name descriptor : String}
    (ended : emitCall kind owner name descriptor before = .ok ((), after)) :
    ∃ operands, Lays (Piece.ofBytes (kind.opcode.byte :: operands)) before after ∧
      operands.length = if kind = .interface then 4 else 2 := by
  unfold emitCall at ended
  cases parsed : MethodDescriptor.ofDescriptor? descriptor with
  | none =>
    rw [parsed] at ended
    cases ended
  | some method =>
    rw [parsed] at ended
    dsimp only at ended
    by_cases interface : kind = .interface
    · simp only [if_pos interface] at ended ⊢
      obtain ⟨pool, -, lays⟩ :=
        exists_of_inPool _ _ (PoolBuilder.plain_interfaceMethodref owner name descriptor).growing
          ended
      exact ⟨_, lays, rfl⟩
    · simp only [if_neg interface] at ended ⊢
      obtain ⟨pool, -, lays⟩ :=
        exists_of_inPool _ _ (PoolBuilder.plain_methodref owner name descriptor).growing ended
      exact ⟨_, lays, rfl⟩

end CodeBuilder

end JavaMachine
