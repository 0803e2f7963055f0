import JavaMachine.Proofs.Assembler.Locals
import JavaMachine.Proofs.Integer

/-! # Integer instructions

An instruction on integers takes its operands off the stack, the second one first, and puts there the
value that stands for the exact result in two's complement. Only a division by zero has none: it
throws and puts nothing there. Branches compare with signs. What all of them do is put together in
`Step.instruction_computesIntegers`. -/

namespace JavaMachine

open Operation (bind_of_ok bind_of_error)
open IntegerKind (Represents)

/-! ## Operands -/

namespace Frame

variable {frame : Frame} {below : List Value}

theorem popInt_of_last {word : Int32}
    (last : frame.stack.toList = below ++ Value.toSlots [.int word]) :
    popInt frame = .ok word (frame.withStack below) := by
  have popped : popSlot frame = .ok (.int word) (frame.withStack below) := popSlot_of_last last
  simp only [popInt, Bind.bind, EStateM.bind, popped]
  rfl

theorem popLong_of_last {word : Int64}
    (last : frame.stack.toList = below ++ Value.toSlots [.long word]) :
    popLong frame = .ok word (frame.withStack below) := by
  have slots : frame.stack.toList = (below ++ [.long word]) ++ [.top] := by
    rw [last, List.append_assoc]
    rfl
  have filler : popFiller frame = .ok () (frame.withStack (below ++ [.long word])) := by
    simp only [popFiller, Bind.bind, EStateM.bind, popSlot_of_last slots]
    rfl
  have popped : popSlot (frame.withStack (below ++ [.long word])) =
      .ok (.long word) (frame.withStack below) := popSlot_of_last rfl
  simp only [popLong, Bind.bind, EStateM.bind, filler, popped]
  rfl

/-- Only a stack that is full keeps a slot off. -/
theorem isOverflow_of_pushSlot {value : Value} {error : Error} {after : Frame}
    (ended : pushSlot value frame = .error error after) : error.IsOverflow := by
  rw [pushSlot_eq] at ended
  split at ended
  · cases ended
    exact ⟨_, _, rfl⟩
  · cases ended

theorem isOverflow_of_push {value : Value} {error : Error} {after : Frame}
    (ended : push value frame = .error error after) : error.IsOverflow := by
  unfold push at ended
  simp only [Bind.bind, EStateM.bind] at ended
  cases first : pushSlot value frame with
  | error fault left =>
    rw [first] at ended
    cases ended
    exact isOverflow_of_pushSlot first
  | ok result between =>
    rw [first] at ended
    dsimp only at ended
    split at ended
    · exact isOverflow_of_pushSlot ended
    · cases ended

end Frame

namespace Step

variable {services : Services} {state : StepState} {machine : Machine} {frame : Frame}
  {cursor : Nat} {below : List Value} {kind : IntegerKind} {x y : Value} {a b : Int}

theorem popInt_bind {α : Type} {word : Int32}
    (last : frame.stack.toList = below ++ Value.toSlots [.int word]) (next : Int32 → Step α) :
    (onFrame Frame.popInt >>= next) services ⟨machine, frame, cursor⟩ =
      next word services ⟨machine, frame.withStack below, cursor⟩ :=
  bind_of_ok (onFrame_ok (Frame.popInt_of_last last))

theorem popLong_bind {α : Type} {word : Int64}
    (last : frame.stack.toList = below ++ Value.toSlots [.long word]) (next : Int64 → Step α) :
    (onFrame Frame.popLong >>= next) services ⟨machine, frame, cursor⟩ =
      next word services ⟨machine, frame.withStack below, cursor⟩ :=
  bind_of_ok (onFrame_ok (Frame.popLong_of_last last))

/-- The second of two operands is on top of the first one. -/
theorem slots_pair (stack : frame.stack.toList = below ++ Value.toSlots [x, y]) :
    frame.stack.toList = (below ++ Value.toSlots [x]) ++ Value.toSlots [y] := by
  rw [stack, List.append_assoc, ← Value.toSlots_append, List.singleton_append]

/-! ## What is computed -/

/-- The result of an operation: there is none if it is to divide by zero. -/
theorem arithmetic_eq (op : ArithmeticOp) (left : kind.Represents x a) (right : kind.Represents y b)
    (stack : frame.stack.toList = below ++ Value.toSlots [x, y]) :
    arithmetic op kind.number services ⟨machine, frame, cursor⟩ =
      pushQuotient (if op.divides = true ∧ b = 0 then none else some (kind.wrap (op.exact a b)))
        services ⟨machine, frame.withStack below, cursor⟩ := by
  have slots := slots_pair stack
  cases left with
  | int left =>
    cases right with
    | int right =>
      refine (popInt_bind slots _).trans ((popInt_bind rfl _).trans ?_)
      rw [ArithmeticOp.map_onInts]
      rfl
  | long left =>
    cases right with
    | long right =>
      refine (popLong_bind slots _).trans ((popLong_bind rfl _).trans ?_)
      rw [ArithmeticOp.map_onLongs]
      rfl

theorem negate_eq (operand : kind.Represents x a)
    (stack : frame.stack.toList = below ++ Value.toSlots [x]) :
    negate kind.number services ⟨machine, frame, cursor⟩ =
      onFrame (Frame.push (kind.wrap (-a))) services ⟨machine, frame.withStack below, cursor⟩ := by
  cases operand with
  | int word =>
    refine (popInt_bind stack _).trans ?_
    rw [IntegerKind.wrap, Int32.ofInt_neg, Int32.ofInt_toInt]
    rfl
  | long word =>
    refine (popLong_bind stack _).trans ?_
    rw [IntegerKind.wrap, Int64.ofInt_neg, Int64.ofInt_toInt]
    rfl

theorem shift_eq (op : ShiftOp) (operand : kind.Represents x a) (distance : Int32)
    (stack : frame.stack.toList = below ++ Value.toSlots [x, .int distance]) :
    ∃ result,
      kind.Represents result
        ((op.onIntegers kind.width a (distance.toInt % kind.width).toNat).bmod (2 ^ kind.width)) ∧
      shift op kind services ⟨machine, frame, cursor⟩ =
        onFrame (Frame.push result) services ⟨machine, frame.withStack below, cursor⟩ := by
  have slots := slots_pair stack
  cases operand with
  | int word =>
    obtain ⟨places, counted, shifted⟩ := ShiftOp.onInts_eq op word distance
    refine ⟨.int (op.onInts word distance), ?_, (popInt_bind slots _).trans (popInt_bind rfl _)⟩
    have number : (op.onInts word distance).toInt = _ :=
      (congrArg Int32.toInt shifted).trans (ShiftOp.toInt_exact op word.toBitVec places)
    change Represents _ _ ((op.onIntegers 32 word.toInt (distance.toInt % 32).toNat).bmod (2 ^ 32))
    rw [← counted, Int.toNat_natCast]
    exact number ▸ .int _
  | long word =>
    obtain ⟨places, counted, shifted⟩ := ShiftOp.onLongs_eq op word distance
    refine ⟨.long (op.onLongs word distance), ?_, (popInt_bind slots _).trans (popLong_bind rfl _)⟩
    have number : (op.onLongs word distance).toInt = _ :=
      (congrArg Int64.toInt shifted).trans (ShiftOp.toInt_exact op word.toBitVec places)
    change Represents _ _ ((op.onIntegers 64 word.toInt (distance.toInt % 64).toNat).bmod (2 ^ 64))
    rw [← counted, Int.toNat_natCast]
    exact number ▸ .long _

theorem convert_eq {type : IntegerType} (operand : type.source.Represents x a)
    (stack : frame.stack.toList = below ++ Value.toSlots [x]) :
    execute type.opcode services ⟨machine, frame, cursor⟩ =
      proceeding (onFrame (Frame.push (type.convert x))) services
        ⟨machine, frame.withStack below, cursor⟩ := by
  cases type with
  | byte | char | short =>
    cases operand with
    | int word => exact proceeding_congr (popInt_bind stack _)
  | int =>
    cases operand with
    | long word => exact proceeding_congr (popLong_bind stack _)
  | long =>
    cases operand with
    | int word => exact proceeding_congr (popInt_bind stack _)

theorem compareLongs_eq (left : IntegerKind.long.Represents x a)
    (right : IntegerKind.long.Represents y b)
    (stack : frame.stack.toList = below ++ Value.toSlots [x, y]) :
    ∃ result, IntegerKind.int.Represents result (a - b).sign ∧
      compareLongs services ⟨machine, frame, cursor⟩ =
        onFrame (Frame.push result) services ⟨machine, frame.withStack below, cursor⟩ := by
  have slots := slots_pair stack
  cases left with
  | long left =>
    cases right with
    | long right =>
      refine ⟨_, ?_, (popLong_bind slots _).trans (popLong_bind rfl _)⟩
      exact toInt_orderingInt_compare left right ▸ .int _

end Step

/-! ## What instructions on integers do -/

namespace Step

variable {services : Services} {state : StepState} {below : List Value} {kind : IntegerKind}
  {x y : Value} {a b : Int}

/-- The machine is before an instruction, and the operands of it are on top of the stack. -/
structure Ready (op : Opcode) (below operands : List Value) (state : StepState) : Prop where
  opcode : ∃ byte, state.frame.code.bytes[state.cursor]? = some byte ∧ Opcode.ofByte? byte = some op
  stack : state.frame.stack.toList = below ++ Value.toSlots operands

/-- A value takes the place of the operands of an instruction, if there is room for it, and control
goes on behind the opcode. -/
def Leaves (services : Services) (state : StepState) (below : List Value) (result : Value) : Prop :=
  below.length + (Value.toSlots [result]).length ≤ state.frame.code.maxStack →
    instruction services state = .ok .proceed
      ⟨state.machine, state.frame.withStack (below ++ Value.toSlots [result]), state.cursor + 1⟩

/-- A value that stands for an integer takes the place of the operands of an instruction. -/
def Computes (services : Services) (state : StepState) (below : List Value) (kind : IntegerKind)
    (n : Int) : Prop :=
  ∃ result, kind.Represents result n ∧ Leaves services state below result

/-- The operands of a branch are gone, and control goes on at the target if a condition holds, else
behind the branch. -/
structure Branches (services : Services) (state : StepState) (below : List Value) (offset : UInt16)
    (condition : Prop) : Prop where
  taken (holds : condition) (target : Nat)
    (place : (target : Int) = state.frame.pc + offset.toInt16.toInt)
    (inside : target < state.frame.code.bytes.size) :
    instruction services state =
      .ok .proceed ⟨state.machine, state.frame.withStack below, target⟩
  passed (fails : ¬ condition) :
    instruction services state =
      .ok .proceed ⟨state.machine, state.frame.withStack below, state.cursor + 3⟩

/-- A local variable has become greater by an amount, cut to the range of an int, and control goes on
behind so many bytes. -/
def Increments (services : Services) (state : StepState) (index size : Nat) (amount : Int) : Prop :=
  ∀ word, state.frame.locals[index]? = some (.int word) →
    ∃ result locals, IntegerKind.int.Represents result ((word.toInt + amount).bmod (2 ^ 32)) ∧
      Frame.Assigned index result state.frame.locals locals ∧
      instruction services state =
        .ok .proceed ⟨state.machine, { state.frame with locals }, state.cursor + size⟩

theorem Ready.instruction_eq {op : Opcode} {operands : List Value}
    (ready : Ready op below operands state) :
    instruction services state = execute op services { state with cursor := state.cursor + 1 } := by
  obtain ⟨byte, ahead, decoded⟩ := ready.opcode
  exact instruction_of_byte ahead decoded

/-- What is left of an instruction is to push a value. -/
theorem leaves_of_eq {result : Value}
    (same : instruction services state = proceeding (onFrame (Frame.push result)) services
      ⟨state.machine, state.frame.withStack below, state.cursor + 1⟩) :
    Leaves services state below result := by
  intro room
  have pushed : Frame.push result (state.frame.withStack below) =
      .ok () (state.frame.withStack (below ++ Value.toSlots [result])) :=
    (state.frame.withStack below).push_of_room room
  rw [same]
  exact bind_of_ok (onFrame_ok pushed)

theorem Ready.arithmetic_eq {op : ArithmeticOp}
    (ready : Ready (.arithmetic op kind.number) below [x, y] state) (left : kind.Represents x a)
    (right : kind.Represents y b) :
    instruction services state =
      proceeding (pushQuotient
        (if op.divides = true ∧ b = 0 then none else some (kind.wrap (op.exact a b)))) services
          ⟨state.machine, state.frame.withStack below, state.cursor + 1⟩ :=
  ready.instruction_eq.trans (proceeding_congr (Step.arithmetic_eq op left right ready.stack))

theorem Ready.computes_arithmetic {op : ArithmeticOp}
    (ready : Ready (.arithmetic op kind.number) below [x, y] state) (left : kind.Represents x a)
    (right : kind.Represents y b) (proper : op.divides = true → b ≠ 0) :
    Computes services state below kind ((op.exact a b).bmod (2 ^ kind.width)) := by
  have same : instruction services state = _ := ready.arithmetic_eq left right
  rw [if_neg fun zero => proper zero.1 zero.2] at same
  exact ⟨_, IntegerKind.represents_wrap kind _, leaves_of_eq same⟩

theorem Ready.computes_negate (ready : Ready (.negate kind.number) below [x] state)
    (operand : kind.Represents x a) :
    Computes services state below kind ((-a).bmod (2 ^ kind.width)) :=
  ⟨_, IntegerKind.represents_wrap kind _, leaves_of_eq
    (ready.instruction_eq.trans (proceeding_congr (negate_eq operand ready.stack)))⟩

theorem Ready.computes_shift {op : ShiftOp} {distance : Int32}
    (ready : Ready (.shift op kind) below [x, .int distance] state)
    (operand : kind.Represents x a) :
    Computes services state below kind
      ((op.onIntegers kind.width a (distance.toInt % kind.width).toNat).bmod (2 ^ kind.width)) := by
  obtain ⟨result, represents, same⟩ : ∃ result, _ ∧ shift op kind services
      ⟨state.machine, state.frame, state.cursor + 1⟩ = _ := shift_eq op operand distance ready.stack
  exact ⟨result, represents, leaves_of_eq (ready.instruction_eq.trans (proceeding_congr same))⟩

theorem Ready.computes_convert {type : IntegerType} (ready : Ready type.opcode below [x] state)
    (operand : type.source.Represents x a) :
    ∃ n, type.Contains n ∧ n ≡ a [ZMOD 2 ^ type.bits] ∧
      Computes services state below type.target n := by
  obtain ⟨n, contains, same, represents⟩ := IntegerType.exists_convert operand
  exact ⟨n, contains, same, _, represents,
    leaves_of_eq (ready.instruction_eq.trans (convert_eq operand ready.stack))⟩

theorem Ready.computes_compare (ready : Ready .lcmp below [x, y] state)
    (left : IntegerKind.long.Represents x a) (right : IntegerKind.long.Represents y b) :
    Computes services state below .int (a - b).sign := by
  obtain ⟨result, represents, same⟩ : ∃ result, _ ∧ compareLongs services
      ⟨state.machine, state.frame, state.cursor + 1⟩ = _ := compareLongs_eq left right ready.stack
  exact ⟨result, represents, leaves_of_eq (ready.instruction_eq.trans (proceeding_congr same))⟩

/-! ## Branches and increments -/

theorem Ready.branches {op : Opcode} {operands : List Value} {pops : Nat} {offset : UInt16}
    {holds : Bool} (ready : Ready op below operands state)
    (isBranch : CodeBuilder.branchPops op = some pops)
    (ahead : Ahead { state with cursor := state.cursor + 1 } (Writer.u16 offset))
    (decided : Frame.decides (state.cursor + 3) op state.frame =
      .ok holds (state.frame.withStack below)) :
    Branches services state below offset (holds = true) := by
  have same : instruction services state =
      proceeding (if holds then branch offset.toInt16.toInt32 else pure ()) services
        ⟨state.machine, state.frame.withStack below, state.cursor + 3⟩ :=
    ready.instruction_eq.trans (execute_of_decides isBranch ahead decided)
  refine ⟨fun taken target place inside => ?_, fun passed => ?_⟩
  · have there : branch offset.toInt16.toInt32 services
        ⟨state.machine, state.frame.withStack below, state.cursor + 3⟩ =
          .ok () ⟨state.machine, state.frame.withStack below, target⟩ := by
      refine (branch_of_place ?_).trans (if_pos inside)
      rw [place, Int16.toInt_toInt32]
      rfl
    rw [same, if_pos taken]
    exact bind_of_ok there
  · rw [same, if_neg passed]
    rfl

theorem Ready.branchesOnInts {condition : Condition} {offset : UInt16}
    (ready : Ready (.ifInts condition) below [x, y] state)
    (ahead : Ahead { state with cursor := state.cursor + 1 } (Writer.u16 offset))
    (left : IntegerKind.int.Represents x a) (right : IntegerKind.int.Represents y b) :
    Branches services state below offset (condition.Compares a b) := by
  have slots := slots_pair ready.stack
  cases left with
  | int left =>
    cases right with
    | int right =>
      have second : Frame.popInt state.frame = _ := Frame.popInt_of_last slots
      have first : Frame.popInt (state.frame.withStack (below ++ Value.toSlots [.int left])) = _ :=
        Frame.popInt_of_last rfl
      rw [← condition.holds_iff]
      refine ready.branches rfl ahead ?_
      simp only [Frame.decides, Bind.bind, EStateM.bind, second, first]
      rfl

theorem Ready.branchesOnInt {condition : Condition} {offset : UInt16}
    (ready : Ready (.ifInt condition) below [x] state)
    (ahead : Ahead { state with cursor := state.cursor + 1 } (Writer.u16 offset))
    (operand : IntegerKind.int.Represents x a) :
    Branches services state below offset (condition.Compares a 0) := by
  cases operand with
  | int word =>
    have popped : Frame.popInt state.frame = _ := Frame.popInt_of_last ready.stack
    have same := condition.holds_iff word 0
    rw [Int32.toInt_zero] at same
    rw [← same]
    refine ready.branches rfl ahead ?_
    simp only [Frame.decides, Bind.bind, EStateM.bind, popped]
    rfl

/-- What adds to a local variable adds to the integer that it stands for. -/
theorem increments_of_eq {index size : Nat} {delta : Int32}
    (same : instruction services state = proceeding (increment index delta) services
      ⟨state.machine, state.frame, state.cursor + size⟩) :
    Increments services state index size delta.toInt := by
  intro word held
  have inside := (Array.getElem?_eq_some_iff.mp held).1
  have assigned : Frame.Assigned index (.int (word + delta)) state.frame.locals _ :=
    Frame.assigned_set rfl inside
  refine ⟨_, _, ?_, assigned, ?_⟩
  · exact Int32.toInt_add word delta ▸ .int _
  · rw [same, proceeding_eq_ok_iff]
    exact ⟨rfl, increment_eq_ok_iff.mpr ⟨word, _, held, assigned, rfl⟩⟩

theorem increments {index amount : UInt8} {operands : List Value}
    (ready : Ready .iinc below operands state)
    (ahead : Ahead { state with cursor := state.cursor + 1 } [index, amount]) :
    Increments services state index.toNat 3 amount.toInt8.toInt := by
  obtain ⟨atIndex, atAmount⟩ := ahead_cons.mp ahead
  have signed : readSignedByte services { state with cursor := state.cursor + 1 + 1 } =
      .ok amount.toInt8.toInt32 { state with cursor := state.cursor + 1 + 1 + 1 } :=
    bind_of_ok (readByte_of_ahead atAmount)
  rw [← Int8.toInt_toInt32]
  refine increments_of_eq (ready.instruction_eq.trans (proceeding_congr ?_))
  exact (bind_of_ok (readByte_of_ahead atIndex)).trans (bind_of_ok signed)

/-- The wide form has an index and an amount of two bytes each. -/
theorem increments_wide {index amount : UInt16} {operands : List Value}
    (ready : Ready .wide below operands state)
    (ahead : Ahead { state with cursor := state.cursor + 1 }
      ([Opcode.iinc.byte] ++ Writer.u16 index ++ Writer.u16 amount)) :
    Increments services state index.toNat 6 amount.toInt16.toInt := by
  obtain ⟨atIndex, atAmount⟩ := ahead_append.mp ahead
  have widens : wide services { state with cursor := state.cursor + 1 } = _ :=
    wide_of_ahead (by decide) atIndex
  have signed : readSignedShort services { state with cursor := state.cursor + 1 + 1 + 2 } = _ :=
    readSignedShort_of_ahead atAmount
  rw [← Int16.toInt_toInt32]
  refine increments_of_eq (ready.instruction_eq.trans (proceeding_congr ?_))
  exact widens.trans (bind_of_ok signed)

/-! ## Divisions by zero -/

theorem frame_of_onMachine_error {α : Type} {action : Exec α} {interruption : Interruption}
    {after : StepState} (ended : onMachine action services state = .error interruption after) :
    after.frame = state.frame := by
  unfold onMachine at ended
  dsimp only at ended
  cases acted : action services state.machine with
  | ok _ _ =>
    rw [acted] at ended
    cases ended
  | error _ _ =>
    rw [acted] at ended
    cases ended
    rfl

/-- Pushing a value throws nothing, whether there is room or not. -/
theorem not_throws_push {before : Machine} {className : String} {message : Option String}
    {result : Value} :
    ¬ Exec.Throws before className message
      (proceeding (onFrame (Frame.push result)) services state) := by
  rintro ⟨after, -, outcome⟩
  cases pushed : Frame.push result state.frame with
  | ok _ _ =>
    have ended : proceeding (onFrame (Frame.push result)) services state = _ :=
      bind_of_ok (onFrame_ok pushed)
    rw [ended] at outcome
    rcases outcome with ⟨_, same, -⟩ | ⟨-, _, same⟩ <;> cases same
  | error error left =>
    have ended : proceeding (onFrame (Frame.push result)) services state = _ :=
      bind_of_error (onFrame_error pushed)
    obtain ⟨site, limit, rfl⟩ := Frame.isOverflow_of_push pushed
    rw [ended] at outcome
    rcases outcome with ⟨_, same, -⟩ | ⟨-, _, same⟩ <;> cases same

section Division

variable (builtin : ClassSource.StartsBuiltin services.sources)
  (sound : state.machine.Sound services.sources) {op : ArithmeticOp}
  (ready : Ready (.arithmetic op kind.number) below [x, y] state) (left : kind.Represents x a)
  (right : kind.Represents y b) (divides : op.divides = true)

include builtin sound ready left right divides

/-- An instruction that divides throws exactly if the divisor is zero. -/
theorem throws_iff_divisor_zero :
    Exec.Throws state.machine ClassName.arithmeticException (some "/ by zero")
      (instruction services state) ↔ b = 0 := by
  rw [ready.arithmetic_eq left right]
  by_cases zero : b = 0
  · rw [if_pos ⟨divides, zero⟩]
    have throws : Exec.Throws state.machine ClassName.arithmeticException (some "/ by zero")
        (onMachine (Exec.throwNew ClassName.arithmeticException (some "/ by zero") : Exec Unit)
          services ⟨state.machine, state.frame.withStack below, state.cursor + 1⟩) := by
      rw [← Operation.ofExec_eq_onMachine]
      exact (Exec.throwNew_throws builtin sound (by decide) _).ofExec
    exact iff_of_true (throws.bind _) zero
  · rw [if_neg fun both => zero both.2]
    exact iff_of_false not_throws_push zero

omit builtin sound in
/-- A division by zero leaves nothing in place of its operands. -/
theorem frame_of_divisor_zero (zero : b = 0) {interruption : Interruption} {after : StepState}
    (ended : instruction services state = .error interruption after) :
    after.frame = state.frame.withStack below := by
  rw [ready.arithmetic_eq left right, if_pos ⟨divides, zero⟩] at ended
  cases thrown : onMachine
      (Exec.throwNew ClassName.arithmeticException (some "/ by zero") : Exec Unit) services
      ⟨state.machine, state.frame.withStack below, state.cursor + 1⟩ with
  | ok _ _ =>
    cases (bind_of_ok thrown).symm.trans ended
  | error _ _ =>
    cases (bind_of_error thrown).symm.trans ended
    exact frame_of_onMachine_error thrown

end Division

/-- What the instructions on integers do, measured by operations on unbounded integers: an int or a
long on the stack stands for an integer, and what takes the place of the operands stands for the exact
result in two's complement. -/
structure ComputesIntegers (services : Services) (state : StepState) (below : List Value) : Prop where
  arithmetic {op : ArithmeticOp} {kind : IntegerKind} {x y : Value} {a b : Int}
    (ready : Ready (.arithmetic op kind.number) below [x, y] state) (left : kind.Represents x a)
    (right : kind.Represents y b) (proper : op.divides = true → b ≠ 0) :
    Computes services state below kind ((op.exact a b).bmod (2 ^ kind.width))
  negation {kind : IntegerKind} {x : Value} {a : Int}
    (ready : Ready (.negate kind.number) below [x] state) (operand : kind.Represents x a) :
    Computes services state below kind ((-a).bmod (2 ^ kind.width))
  increment {index amount : UInt8} (ready : Ready .iinc below [] state)
    (ahead : Ahead { state with cursor := state.cursor + 1 } [index, amount]) :
    Increments services state index.toNat 3 amount.toInt8.toInt
  incrementWide {index amount : UInt16} (ready : Ready .wide below [] state)
    (ahead : Ahead { state with cursor := state.cursor + 1 }
      ([Opcode.iinc.byte] ++ Writer.u16 index ++ Writer.u16 amount)) :
    Increments services state index.toNat 6 amount.toInt16.toInt
  /-- Quotient and remainder, both cut to the width, make up the dividend. -/
  division {kind : IntegerKind} {x : Value} {a : Int} (b : Int) (dividend : kind.Represents x a) :
    ((ArithmeticOp.div.exact a b).bmod (2 ^ kind.width) * b +
      (ArithmeticOp.rem.exact a b).bmod (2 ^ kind.width)).bmod (2 ^ kind.width) = a
  throws_iff {op : ArithmeticOp} {kind : IntegerKind} {x y : Value} {a b : Int}
    (ready : Ready (.arithmetic op kind.number) below [x, y] state) (left : kind.Represents x a)
    (right : kind.Represents y b) (divides : op.divides = true) :
    Exec.Throws state.machine ClassName.arithmeticException (some "/ by zero")
      (instruction services state) ↔ b = 0
  throws_empty {op : ArithmeticOp} {kind : IntegerKind} {x y : Value} {a : Int}
    (ready : Ready (.arithmetic op kind.number) below [x, y] state) (left : kind.Represents x a)
    (right : kind.Represents y 0) (divides : op.divides = true) {interruption : Interruption}
    {after : StepState} (ended : instruction services state = .error interruption after) :
    after.frame = state.frame.withStack below
  /-- The distance of a shift is an int and counts modulo the width. -/
  shift {op : ShiftOp} {kind : IntegerKind} {x : Value} {a : Int} {distance : Int32}
    (ready : Ready (.shift op kind) below [x, .int distance] state)
    (operand : kind.Represents x a) :
    Computes services state below kind
      ((op.onIntegers kind.width a (distance.toInt % kind.width).toNat).bmod (2 ^ kind.width))
  conversion {type : IntegerType} {x : Value} {a : Int} (ready : Ready type.opcode below [x] state)
    (operand : type.source.Represents x a) :
    ∃ n, (type.Contains n ∧ n ≡ a [ZMOD 2 ^ type.bits]) ∧
      (∀ m, type.Contains m ∧ m ≡ a [ZMOD 2 ^ type.bits] → m = n) ∧
      Computes services state below type.target n
  comparison {x y : Value} {a b : Int} (ready : Ready .lcmp below [x, y] state)
    (left : IntegerKind.long.Represents x a) (right : IntegerKind.long.Represents y b) :
    Computes services state below .int (a - b).sign
  branch {condition : Condition} {x y : Value} {a b : Int} {offset : UInt16}
    (ready : Ready (.ifInts condition) below [x, y] state)
    (ahead : Ahead { state with cursor := state.cursor + 1 } (Writer.u16 offset))
    (left : IntegerKind.int.Represents x a) (right : IntegerKind.int.Represents y b) :
    Branches services state below offset (condition.Compares a b)
  branchOnZero {condition : Condition} {x : Value} {a : Int} {offset : UInt16}
    (ready : Ready (.ifInt condition) below [x] state)
    (ahead : Ahead { state with cursor := state.cursor + 1 } (Writer.u16 offset))
    (operand : IntegerKind.int.Represents x a) :
    Branches services state below offset (condition.Compares a 0)

/-- **Instructions on integers compute in two's complement.** -/
theorem instruction_computesIntegers (builtin : ClassSource.StartsBuiltin services.sources)
    (sound : state.machine.Sound services.sources) : ComputesIntegers services state below where
  arithmetic ready left right proper := ready.computes_arithmetic left right proper
  negation ready operand := ready.computes_negate operand
  increment := increments
  incrementWide := increments_wide
  division {_ _ a} b dividend := (ArithmeticOp.bmod_div_rem a b _).trans dividend.bmod_eq
  throws_iff := throws_iff_divisor_zero builtin sound
  throws_empty ready left right divides := frame_of_divisor_zero ready left right divides rfl
  shift ready operand := ready.computes_shift operand
  conversion ready operand := by
    obtain ⟨n, contains, same, computes⟩ := ready.computes_convert operand
    refine ⟨n, ⟨contains, same⟩, fun m other => ?_, computes⟩
    exact IntegerType.eq_of_modEq other.1 contains (other.2.trans same.symm)
  comparison ready left right := ready.computes_compare left right
  branch ready ahead left right := ready.branchesOnInts ahead left right
  branchOnZero ready ahead operand := ready.branchesOnInt ahead operand

/-- The least int divided by minus one is beyond the range of an int: what is left is the least int
again. -/
theorem instruction_computesIntegers_least :
    (beforeOnly (.arithmetic .div .int) #[.int Int32.minValue, .int (-1)]).machine.Sound
        Services.builtin.sources ∧
      ∃ after, instruction Services.builtin
          (beforeOnly (.arithmetic .div .int) #[.int Int32.minValue, .int (-1)]) =
            .ok .proceed after ∧
        after.frame.stack.toList = [.int Int32.minValue] := by
  have sound : Machine.Sound Services.builtin.sources {} := Machine.sound_new _
  have ready : Ready (.arithmetic .div IntegerKind.int.number) []
      [.int Int32.minValue, .int (-1)]
      (beforeOnly (.arithmetic .div .int) #[.int Int32.minValue, .int (-1)]) :=
    ⟨⟨_, rfl, Opcode.ofByte?_byte (by decide)⟩, rfl⟩
  obtain ⟨result, represents, leaves⟩ :=
    (instruction_computesIntegers Services.startsBuiltin_builtin sound).arithmetic ready (.int _)
      (.int _) fun _ => by decide
  obtain rfl := represents.eq_wrap
  exact ⟨sound, _, leaves (by decide), by decide⟩

end Step

end JavaMachine
