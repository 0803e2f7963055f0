import JavaMachine.Proofs.Execution.Decision
import JavaMachine.Proofs.Instruction.Place

/-! # Accesses in range

Code is not verified before it runs, so each instruction looks for itself. Whatever reads or changes
something at a position does so only where there is such a position, and fails with an error and
without any change where there is none (`Checked`): bytes of code, locals, slots of the stack and
constants. A branch goes to a place in the code, elements are found exactly at the indices of an
array, and integers wrap around (`Step.checksAccesses`). -/

namespace JavaMachine

open Operation (exists_of_bind_ok)

/-- What an access to a position among so many ends with. If there is the position, then the access
is made; if there is not, then it fails and changes nothing. -/
structure Checked {ε σ α : Type} (fails : Error → ε) (position size : Nat) (state : σ)
    (result : EStateM.Result ε σ α) (access : position < size → EStateM.Result ε σ α) : Prop where
  inside (within : position < size) : result = access within
  outside (beyond : ¬ position < size) : ∃ error, result = .error (fails error) state

/-! ## Frames -/

namespace Frame

theorem getLocal_checked (index : Nat) (frame : Frame) :
    Checked id index frame.locals.size frame (getLocal index frame)
      fun within => .ok frame.locals[index] frame := by
  unfold getLocal
  simp only [Bind.bind, EStateM.bind, get, getThe, MonadStateOf.get, EStateM.get]
  constructor
  · intro within
    rw [Array.getElem?_eq_getElem within]
    rfl
  · intro beyond
    rw [Array.getElem?_eq_none (Nat.le_of_not_lt beyond)]
    exact ⟨_, rfl⟩

theorem setIfInBounds_eq {values : Array Value} {index : Nat} (within : index < values.size)
    (value : Value) : values.setIfInBounds index value = values.set index value :=
  dif_pos within

theorem setLocal_checked (index : Nat) {value : Value} (narrow : value.isWide = false)
    (frame : Frame) :
    Checked id index frame.locals.size frame (setLocal index value frame) fun within =>
      .ok () { frame with locals := frame.locals.set index value } := by
  unfold setLocal
  simp only [Bind.bind, EStateM.bind, get, getThe, MonadStateOf.get, EStateM.get, narrow,
    Bool.false_eq_true, if_false]
  constructor
  · intro within
    rw [if_neg (Nat.not_le_of_lt within), ← setIfInBounds_eq]
    rfl
  · intro beyond
    rw [if_pos (Nat.le_of_not_lt beyond)]
    exact ⟨_, rfl⟩

/-- A wide value takes the following local too. -/
theorem setLocal_checked_of_wide (index : Nat) {value : Value} (wide : value.isWide = true)
    (frame : Frame) :
    Checked id (index + 1) frame.locals.size frame (setLocal index value frame) fun within =>
      have before : index < (frame.locals.set (index + 1) .top).size := by
        rw [Array.size_set]
        omega
      .ok () { frame with locals := (frame.locals.set (index + 1) .top).set index value } := by
  unfold setLocal
  simp only [Bind.bind, EStateM.bind, get, getThe, MonadStateOf.get, EStateM.get, wide, if_true]
  constructor
  · intro within
    rw [if_neg (Nat.not_le_of_lt within)]
    simp only [← setIfInBounds_eq]
    rfl
  · intro beyond
    rw [if_pos (Nat.le_of_not_lt beyond)]
    exact ⟨_, rfl⟩

theorem pushSlot_checked (value : Value) (frame : Frame) :
    Checked id frame.stack.size frame.code.maxStack frame (pushSlot value frame) fun _ =>
      .ok () { frame with stack := frame.stack.push value } := by
  rw [pushSlot_eq]
  constructor
  · intro room
    rw [if_neg (Nat.not_le_of_lt room)]
  · intro full
    rw [if_pos (Nat.le_of_not_lt full)]
    exact ⟨_, rfl⟩

theorem popSlot_checked (frame : Frame) :
    Checked id 0 frame.stack.size frame (popSlot frame) fun _ =>
      .ok frame.stack[frame.stack.size - 1] { frame with stack := frame.stack.pop } := by
  unfold popSlot
  simp only [Bind.bind, EStateM.bind, get, getThe, MonadStateOf.get, EStateM.get,
    Array.back?_eq_getElem?]
  constructor
  · intro within
    rw [Array.getElem?_eq_getElem (Nat.sub_one_lt_of_lt within)]
    rfl
  · intro beyond
    rw [Array.getElem?_eq_none (by omega)]
    exact ⟨_, rfl⟩

/-- Some slots are taken off the top of the stack, if there are so many. -/
theorem popSlots_checked (count : Nat) (frame : Frame) :
    (∃ rest taken, frame.stack = rest ++ taken ∧ taken.size = count ∧
      popSlots count frame = .ok taken.toList { frame with stack := rest }) ∨
    frame.stack.size < count ∧ ∃ error, popSlots count frame = .error error frame := by
  unfold popSlots
  simp only [Bind.bind, EStateM.bind, get, getThe, MonadStateOf.get, EStateM.get]
  by_cases short : count > frame.stack.size
  · rw [if_pos short]
    exact .inr ⟨short, _, rfl⟩
  · rw [if_neg short]
    refine .inl ⟨frame.stack.extract 0 (frame.stack.size - count),
      frame.stack.extract (frame.stack.size - count) frame.stack.size, ?_, ?_, ?_⟩
    · rw [Array.extract_append_extract, Nat.min_eq_left (Nat.zero_le _),
        Nat.max_eq_right (Nat.sub_le _ _), Array.extract_size]
    · rw [Array.size_extract]
      omega
    · have rest : frame.stack.shrink (frame.stack.size - count) =
          frame.stack.extract 0 (frame.stack.size - count) := Array.shrink_eq_take
      rw [← rest]
      rfl

end Frame

/-! ## Code, constants and branches -/

namespace Step

variable (services : Services) (state : StepState)

theorem readByte_checked :
    Checked .fatal state.cursor state.frame.code.bytes.size state (readByte services state)
      fun within => .ok state.frame.code.bytes[state.cursor]
        { state with cursor := state.cursor + 1 } := by
  unfold readByte
  simp only [Bind.bind, ReaderT.bind, EStateM.bind, cursor, frame]
  constructor
  · intro within
    rw [Array.getElem?_eq_getElem within]
    rfl
  · intro beyond
    rw [Array.getElem?_eq_none (Nat.le_of_not_lt beyond)]
    exact ⟨_, rfl⟩

/-- A constant is read at a position of the pool, which is no filler. -/
theorem constantAt_checked (index : UInt16) :
    (∃ position, index.toNat = position + 1 ∧
      ∃ within : position < state.frame.owner.info.pool.size,
        state.frame.owner.info.pool[position] ≠ .empty ∧
        constantAt index services state = .ok state.frame.owner.info.pool[position] state) ∨
    ∃ error, constantAt index services state = .error (.fatal error) state := by
  unfold constantAt
  simp only [Bind.bind, ReaderT.bind, EStateM.bind, frame]
  cases found : state.frame.owner.constant? index with
  | none => exact .inr ⟨_, rfl⟩
  | some constant =>
    unfold LinkedClass.constant? at found
    split at found
    · cases found
    · next position numbered =>
      split at found
      · cases found
      · next proper =>
        obtain ⟨within, rfl⟩ := Array.getElem?_eq_some_iff.mp found
        refine .inl ⟨position, numbered, within, fun filler => ?_, rfl⟩
        rw [filler] at found
        exact proper found

/-- A branch leads to a place in the code, at the offset from the instruction. -/
theorem targetOf_checked (offset : Int32) :
    (∃ target : Nat, (target : Int) = state.frame.pc + offset.toInt ∧
      target < state.frame.code.bytes.size ∧ targetOf offset services state = .ok target state) ∨
    ∃ error, targetOf offset services state = .error (.fatal error) state := by
  unfold targetOf
  simp only [Bind.bind, ReaderT.bind, EStateM.bind, frame]
  split
  · next bounds =>
    refine .inl ⟨(state.frame.pc + offset.toInt).toNat, Int.toNat_of_nonneg bounds.1, ?_, rfl⟩
    omega
  · exact .inr ⟨_, rfl⟩

variable {services state}

/-- The cursor is not beyond the end of the code once something has been read. -/
theorem cursor_le_of_readByte {byte : UInt8} {after : StepState}
    (ended : readByte services state = .ok byte after) :
    after.frame.code = state.frame.code ∧ after.cursor ≤ state.frame.code.bytes.size := by
  obtain ⟨found, rfl⟩ := readByte_eq_ok ended
  exact ⟨rfl, (Array.getElem?_eq_some_iff.mp found).1⟩

theorem cursor_le_of_readShort {value : UInt16} {after : StepState}
    (ended : readShort services state = .ok value after) :
    after.frame.code = state.frame.code ∧ after.cursor ≤ state.frame.code.bytes.size := by
  obtain ⟨high, between, first, ended⟩ := exists_of_bind_ok ended
  obtain ⟨low, last, second, ended⟩ := exists_of_bind_ok ended
  cases ended
  obtain ⟨code, -⟩ := cursor_le_of_readByte first
  have rest := cursor_le_of_readByte second
  rwa [code] at rest

theorem cursor_le_of_readInt {value : Int32} {after : StepState}
    (ended : readInt services state = .ok value after) :
    after.frame.code = state.frame.code ∧ after.cursor ≤ state.frame.code.bytes.size := by
  obtain ⟨high, between, first, ended⟩ := exists_of_bind_ok ended
  obtain ⟨low, last, second, ended⟩ := exists_of_bind_ok ended
  cases ended
  obtain ⟨code, -⟩ := cursor_le_of_readShort first
  have rest := cursor_le_of_readShort second
  rwa [code] at rest

end Step

/-! ## Elements -/

/-- The indices at which an array has elements are those from zero up to its length. -/
theorem HeapObject.isSome_element?_iff {object : HeapObject} {component : FieldType}
    {slots : Array Value} (array : object.array? = some (component, slots)) (index : Int) :
    (object.element? index).isSome = true ↔ 0 ≤ index ∧ index < slots.size := by
  unfold element?
  rw [array]
  cases index with
  | ofNat position =>
    change slots[position]?.isSome = true ↔ _
    rw [Option.isSome_iff_ne_none, ne_eq, Array.getElem?_eq_none_iff]
    simp only [Int.ofNat_eq_natCast]
    omega
  | negSucc position =>
    refine ⟨fun none => (by cases none), fun bounds => ?_⟩
    have positive := bounds.1
    omega

namespace Step

variable {services : Services} {state after : StepState} {op : Opcode} {kind : ElementKind}

theorem onFrame_eq_ok {α : Type} {operation : FrameM α} {value : α}
    (ended : (liftM operation : Step α) services state = .ok value after) :
    ∃ frame, operation state.frame = .ok value frame ∧ after = { state with frame } := by
  change onFrame operation services state = _ at ended
  unfold onFrame at ended
  cases operated : operation state.frame with
  | ok result frame =>
    simp only [operated] at ended
    cases ended
    exact ⟨frame, rfl, rfl⟩
  | error error frame =>
    simp only [operated] at ended
    cases ended

theorem popObject_eq_ok {ref : Ref} (ended : popObject services state = .ok ref after) :
    ∃ frame, after = { state with frame } := by
  obtain ⟨reference, between, taken, ended⟩ := exists_of_bind_ok ended
  obtain ⟨frame, -, rfl⟩ := onFrame_eq_ok taken
  cases reference with
  | some ref =>
    cases ended
    exact ⟨frame, rfl⟩
  | none =>
    obtain ⟨_, _, thrown⟩ := throwNew_error ClassName.nullPointerException none services
      { state with frame }
    cases (thrown Ref).symm.trans ended

theorem componentOf_eq_ok {object : HeapObject} {component : FieldType}
    (ended : componentOf op kind object services state = .ok component after) :
    after = state ∧ ∃ slots, object.array? = some (component, slots) := by
  unfold componentOf at ended
  cases array : object.array? with
  | some elements =>
    obtain ⟨found, slots⟩ := elements
    rw [array] at ended
    dsimp only at ended
    split at ended
    · cases ended
      exact ⟨rfl, slots, rfl⟩
    · cases ended
  | none =>
    rw [array] at ended
    cases ended

theorem checkKind_eq_ok {type : FieldType} {value : Value}
    (ended : checkKind op type value services state = .ok () after) : after = state := by
  unfold checkKind at ended
  split at ended
  · cases ended
  · cases ended
    rfl

theorem checkElement_eq_ok {array : HeapObject} {value : Value}
    (ended : checkElement array value services state = .ok () after) : after = state := by
  by_cases referring : ∃ ref expected, value = .reference (some ref) ∧
      array.type.element = some expected
  · obtain ⟨ref, expected, rfl, contained⟩ := referring
    rw [checkElement_eq contained] at ended
    split at ended
    · cases ended
      rfl
    · obtain ⟨_, _, thrown⟩ := throwNew_error ClassName.arrayStoreException
        (some (ClassName.dotted (state.machine.heap.get ref).className)) services state
      cases (thrown Unit).symm.trans ended
  · have unchecked : checkElement array value = pure () := by
      unfold checkElement
      split
      · next ref expected contained => exact absurd ⟨ref, expected, rfl, contained⟩ referring
      · rfl
    rw [unchecked] at ended
    cases ended
    rfl

theorem indexOutOfBounds_ne_ok {α : Type} {object : HeapObject} {index : Int32} {value : α} :
    indexOutOfBounds object index services state ≠ .ok value after := by
  obtain ⟨_, _, thrown⟩ := throwNew_error ClassName.arrayIndexOutOfBoundsException _ services state
  intro ended
  cases (thrown α).symm.trans ended

/-- An element that is loaded is one of an array. -/
theorem loadElement_inside (ended : loadElement op kind services state = .ok () after) :
    ∃ ref component slots, (state.machine.heap.get ref).array? = some (component, slots) ∧
      ∃ position, ∃ within : position < slots.size, ∃ popped frame,
        Frame.push slots[position] popped = .ok () frame ∧ after = { state with frame } := by
  obtain ⟨index, _, taken, ended⟩ := exists_of_bind_ok ended
  obtain ⟨_, -, rfl⟩ := onFrame_eq_ok taken
  obtain ⟨ref, _, taken, ended⟩ := exists_of_bind_ok ended
  obtain ⟨popped, rfl⟩ := popObject_eq_ok taken
  obtain ⟨object, _, looked, ended⟩ := exists_of_bind_ok ended
  cases looked
  obtain ⟨component, _, checked, ended⟩ := exists_of_bind_ok ended
  obtain ⟨rfl, slots, array⟩ := componentOf_eq_ok checked
  refine ⟨ref, component, slots, array, ?_⟩
  cases found : (state.machine.heap.get ref).element? index.toInt with
  | some value =>
    rw [found] at ended
    obtain ⟨least, bound⟩ := (HeapObject.isSome_element?_iff array index.toInt).mp (found ▸ rfl)
    obtain ⟨position, position_eq⟩ := Int.eq_ofNat_of_zero_le least
    rw [position_eq] at bound found
    have within : position < slots.size := Int.ofNat_lt.mp bound
    have same : slots[position]? = some value := by
      unfold HeapObject.element? at found
      rwa [array] at found
    obtain ⟨frame, pushed, rfl⟩ := onFrame_eq_ok ended
    rw [Array.getElem?_eq_getElem within, Option.some.injEq] at same
    rw [← same] at pushed
    exact ⟨position, within, popped, frame, pushed, rfl⟩
  | none =>
    rw [found] at ended
    cases indexOutOfBounds_ne_ok ended

/-- An element that is stored takes the place of one of an array. -/
theorem storeElement_inside (ended : storeElement op kind services state = .ok () after) :
    ∃ ref component slots, (state.machine.heap.get ref).array? = some (component, slots) ∧
      ∃ position < slots.size, ∃ value,
        after.machine = { state.machine with heap := state.machine.heap.set ref position value } := by
  obtain ⟨value, _, taken, ended⟩ := exists_of_bind_ok ended
  obtain ⟨_, -, rfl⟩ := onFrame_eq_ok taken
  obtain ⟨index, _, taken, ended⟩ := exists_of_bind_ok ended
  obtain ⟨_, -, rfl⟩ := onFrame_eq_ok taken
  obtain ⟨ref, _, taken, ended⟩ := exists_of_bind_ok ended
  obtain ⟨popped, rfl⟩ := popObject_eq_ok taken
  obtain ⟨object, _, looked, ended⟩ := exists_of_bind_ok ended
  cases looked
  obtain ⟨component, _, checked, ended⟩ := exists_of_bind_ok ended
  obtain ⟨rfl, slots, array⟩ := componentOf_eq_ok checked
  obtain ⟨_, _, checked, ended⟩ := exists_of_bind_ok ended
  obtain rfl := checkKind_eq_ok checked
  obtain ⟨_, _, checked, ended⟩ := exists_of_bind_ok ended
  obtain rfl := checkElement_eq_ok checked
  refine ⟨ref, component, slots, array, ?_⟩
  split at ended
  · next present =>
    obtain ⟨least, bound⟩ := (HeapObject.isSome_element?_iff array index.toInt).mp present
    cases ended
    exact ⟨index.toInt.toNat, by omega, Value.narrow component value, rfl⟩
  · cases indexOutOfBounds_ne_ok ended

end Step

/-! ## Integers -/

namespace ArithmeticOp

/-- The operation on unbounded integers. -/
def exact : ArithmeticOp → Int → Int → Int
  | add, a, b => a + b
  | sub, a, b => a - b
  | mul, a, b => a * b
  | div, a, b => a.tdiv b
  | rem, a, b => a.tmod b

/-- Whether the operation divides. -/
def divides : ArithmeticOp → Bool
  | div | rem => true
  | add | sub | mul => false

/-- There is a result unless it is to divide by zero: that on unbounded integers, wrapped around. -/
theorem onInts_eq (op : ArithmeticOp) (a b : Int32) :
    op.onInts a b = if op.divides ∧ b = 0 then none
      else some (Int32.ofInt (op.exact a.toInt b.toInt)) := by
  have remainder : Int32.ofInt (a.toInt.tmod b.toInt) = a % b := by
    rw [← Int32.toInt_mod, Int32.ofInt_toInt]
  have wrapped (c : Int32) (number : Int) (same : c.toInt = number.bmod (2 ^ 32)) :
      Int32.ofInt number = c := by
    rw [← Int32.toInt_inj, Int32.toInt_ofInt, same]
    rfl
  cases op with
  | add => exact congrArg some (wrapped _ _ (Int32.toInt_add a b)).symm
  | sub => exact congrArg some (wrapped _ _ (Int32.toInt_sub a b)).symm
  | mul => exact congrArg some (wrapped _ _ (Int32.toInt_mul a b)).symm
  | div => simp only [onInts, exact, divides, wrapped _ _ (Int32.toInt_div a b), true_and]
  | rem => simp only [onInts, exact, divides, remainder, true_and]

theorem onLongs_eq (op : ArithmeticOp) (a b : Int64) :
    op.onLongs a b = if op.divides ∧ b = 0 then none
      else some (Int64.ofInt (op.exact a.toInt b.toInt)) := by
  have remainder : Int64.ofInt (a.toInt.tmod b.toInt) = a % b := by
    rw [← Int64.toInt_mod, Int64.ofInt_toInt]
  have wrapped (c : Int64) (number : Int) (same : c.toInt = number.bmod (2 ^ 64)) :
      Int64.ofInt number = c := by
    rw [← Int64.toInt_inj, Int64.toInt_ofInt, same]
    rfl
  cases op with
  | add => exact congrArg some (wrapped _ _ (Int64.toInt_add a b)).symm
  | sub => exact congrArg some (wrapped _ _ (Int64.toInt_sub a b)).symm
  | mul => exact congrArg some (wrapped _ _ (Int64.toInt_mul a b)).symm
  | div => simp only [onLongs, exact, divides, wrapped _ _ (Int64.toInt_div a b), true_and]
  | rem => simp only [onLongs, exact, divides, remainder, true_and]

end ArithmeticOp

namespace ShiftOp

/-- The shift of some bits by so many places. -/
def exact {width : Nat} : ShiftOp → BitVec width → Nat → BitVec width
  | left, bits, places => bits <<< places
  | right, bits, places => bits.sshiftRight places
  | unsignedRight, bits, places => bits >>> places

/-- A distance counts modulo a positive number of places. -/
theorem toNat_smod {width : Nat} (distance size : BitVec width) (positive : 0 < size.toInt) :
    ((distance.smod size).toNat : Int) = distance.toInt % size.toInt := by
  have signed := BitVec.toInt_smod (x := distance) (y := size)
  rw [Int.fmod_eq_emod_of_nonneg _ positive.le] at signed
  have least := Int.emod_nonneg distance.toInt positive.ne'
  have bound := (distance.smod size).isLt
  rw [← signed] at least ⊢
  rw [BitVec.toInt_eq_toNat_cond] at least ⊢
  split <;> split at least <;> omega

/-- The shift of an int is that of its bits by fewer places than there are bits. -/
theorem onInts_eq (op : ShiftOp) (value distance : Int32) :
    ∃ places : Nat, (places : Int) = distance.toInt % 32 ∧
      op.onInts value distance = ⟨⟨op.exact value.toBitVec places⟩⟩ := by
  have signed : (((distance.toBitVec.smod 32).toNat : Nat) : Int) = distance.toInt % 32 :=
    toNat_smod distance.toBitVec 32 (by decide)
  cases op with
  | left => exact ⟨_, signed, rfl⟩
  | right => exact ⟨_, signed, rfl⟩
  | unsignedRight =>
    refine ⟨(distance.toBitVec % 32).toNat, ?_, rfl⟩
    have cut : (distance.toBitVec % 32).toNat = distance.toBitVec.toNat % 32 := BitVec.toNat_umod
    have value : distance.toInt = distance.toBitVec.toInt := rfl
    rw [cut, value, BitVec.toInt_eq_toNat_cond]
    split <;> omega

theorem onLongs_eq (op : ShiftOp) (value : Int64) (distance : Int32) :
    ∃ places : Nat, (places : Int) = distance.toInt % 64 ∧
      op.onLongs value distance = ⟨⟨op.exact value.toBitVec places⟩⟩ := by
  have widened : distance.toInt64.toInt = distance.toInt := Int32.toInt_toInt64 distance
  have signed : (((distance.toInt64.toBitVec.smod 64).toNat : Nat) : Int) =
      distance.toInt % 64 := by
    rw [← widened]
    exact toNat_smod distance.toInt64.toBitVec 64 (by decide)
  cases op with
  | left => exact ⟨_, signed, rfl⟩
  | right => exact ⟨_, signed, rfl⟩
  | unsignedRight =>
    refine ⟨(distance.toInt64.toBitVec % 64).toNat, ?_, rfl⟩
    have cut : (distance.toInt64.toBitVec % 64).toNat = distance.toInt64.toBitVec.toNat % 64 :=
      BitVec.toNat_umod
    have value : distance.toInt64.toInt = distance.toInt64.toBitVec.toInt := rfl
    rw [← widened, cut, value, BitVec.toInt_eq_toNat_cond]
    split <;> omega

end ShiftOp

/-! ## Whatever instructions access -/

/-- Instructions access nothing out of range, and no operation on integers fails but for a division by
zero, which is seen before it is done. -/
structure Step.ChecksAccesses : Prop where
  bytes (services : Services) (state : StepState) :
    Checked .fatal state.cursor state.frame.code.bytes.size state (readByte services state)
      fun within => .ok state.frame.code.bytes[state.cursor]
        { state with cursor := state.cursor + 1 }
  getLocal (index : Nat) (frame : Frame) :
    Checked id index frame.locals.size frame (Frame.getLocal index frame)
      fun within => .ok frame.locals[index] frame
  setLocal (index : Nat) (value : Value) (narrow : value.isWide = false) (frame : Frame) :
    Checked id index frame.locals.size frame (Frame.setLocal index value frame) fun within =>
      .ok () { frame with locals := frame.locals.set index value }
  setLocalWide (index : Nat) (value : Value) (wide : value.isWide = true) (frame : Frame) :
    Checked id (index + 1) frame.locals.size frame (Frame.setLocal index value frame) fun within =>
      have before : index < (frame.locals.set (index + 1) .top).size := by
        rw [Array.size_set]
        omega
      .ok () { frame with locals := (frame.locals.set (index + 1) .top).set index value }
  push (value : Value) (frame : Frame) :
    Checked id frame.stack.size frame.code.maxStack frame (Frame.pushSlot value frame) fun _ =>
      .ok () { frame with stack := frame.stack.push value }
  pop (frame : Frame) :
    Checked id 0 frame.stack.size frame (Frame.popSlot frame) fun _ =>
      .ok frame.stack[frame.stack.size - 1] { frame with stack := frame.stack.pop }
  popMany (count : Nat) (frame : Frame) :
    (∃ rest taken, frame.stack = rest ++ taken ∧ taken.size = count ∧
      Frame.popSlots count frame = .ok taken.toList { frame with stack := rest }) ∨
    frame.stack.size < count ∧ ∃ error, Frame.popSlots count frame = .error error frame
  constants (services : Services) (state : StepState) (index : UInt16) :
    (∃ position, index.toNat = position + 1 ∧
      ∃ within : position < state.frame.owner.info.pool.size,
        state.frame.owner.info.pool[position] ≠ .empty ∧
        constantAt index services state = .ok state.frame.owner.info.pool[position] state) ∨
    ∃ error, constantAt index services state = .error (.fatal error) state
  branches (services : Services) (state : StepState) (offset : Int32) :
    (∃ target : Nat, (target : Int) = state.frame.pc + offset.toInt ∧
      target < state.frame.code.bytes.size ∧ targetOf offset services state = .ok target state) ∨
    ∃ error, targetOf offset services state = .error (.fatal error) state
  elementLoads (op : Opcode) (kind : ElementKind) (services : Services) (state after : StepState)
    (ended : loadElement op kind services state = .ok () after) :
    ∃ ref component slots, (state.machine.heap.get ref).array? = some (component, slots) ∧
      ∃ position, ∃ within : position < slots.size, ∃ popped frame,
        Frame.push slots[position] popped = .ok () frame ∧ after = { state with frame }
  elementStores (op : Opcode) (kind : ElementKind) (services : Services) (state after : StepState)
    (ended : storeElement op kind services state = .ok () after) :
    ∃ ref component slots, (state.machine.heap.get ref).array? = some (component, slots) ∧
      ∃ position < slots.size, ∃ value,
        after.machine = { state.machine with heap := state.machine.heap.set ref position value }
  ints (op : ArithmeticOp) (a b : Int32) :
    op.onInts a b = if op.divides ∧ b = 0 then none
      else some (Int32.ofInt (op.exact a.toInt b.toInt))
  longs (op : ArithmeticOp) (a b : Int64) :
    op.onLongs a b = if op.divides ∧ b = 0 then none
      else some (Int64.ofInt (op.exact a.toInt b.toInt))
  intShifts (op : ShiftOp) (value distance : Int32) :
    ∃ places : Nat, (places : Int) = distance.toInt % 32 ∧
      op.onInts value distance = ⟨⟨op.exact value.toBitVec places⟩⟩
  longShifts (op : ShiftOp) (value : Int64) (distance : Int32) :
    ∃ places : Nat, (places : Int) = distance.toInt % 64 ∧
      op.onLongs value distance = ⟨⟨op.exact value.toBitVec places⟩⟩

theorem Step.checksAccesses : ChecksAccesses where
  bytes := readByte_checked
  getLocal := Frame.getLocal_checked
  setLocal index _ narrow := Frame.setLocal_checked index narrow
  setLocalWide index _ wide := Frame.setLocal_checked_of_wide index wide
  push := Frame.pushSlot_checked
  pop := Frame.popSlot_checked
  popMany := Frame.popSlots_checked
  constants := constantAt_checked
  branches := targetOf_checked
  elementLoads _ _ _ _ _ := loadElement_inside
  elementStores _ _ _ _ _ := storeElement_inside
  ints := ArithmeticOp.onInts_eq
  longs := ArithmeticOp.onLongs_eq
  intShifts := ShiftOp.onInts_eq
  longShifts := ShiftOp.onLongs_eq

end JavaMachine
