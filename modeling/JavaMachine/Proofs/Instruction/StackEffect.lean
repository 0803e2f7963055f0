import JavaMachine.Proofs.Instruction.StackDepth

/-! # The stack effects of instructions

The table of stack effects says of each instruction without operands how many slots it takes from the
operand stack and how many it puts there. The instructions do that: an instruction that completes
has moved as many slots, one that finds too few fails, and none finds the stack full if there is room
for the slots before and after it (`Step.instruction_hasEffect`). -/

namespace JavaMachine

open Operation (bind_of_ok bind_of_error exists_of_bind_ok)

namespace Step

variable {α β : Type} {services : Services} {machine : Machine} {n pop push : Nat} {gives : α → Prop}

/-! ## Instructions on numbers -/

theorem length_toSlots_of_kind {value : Value} {kind : ValueKind} (same : value.kind = .value kind) :
    (Value.toSlots [value]).length = kind.slots := by
  cases value <;> cases same <;> rfl

theorem effect_push {value : Value} (kind : ValueKind) (same : value.kind = .value kind) :
    Effect services machine 0 kind.slots (onFrame (Frame.push value)) := by
  rw [← length_toSlots_of_kind same]
  exact effect_onFrame (Frame.adds_push value)

theorem effect_popInt {m : Nat} {next : Int32 → Step α}
    (rest : ∀ value, Effect services machine m push (next value)) :
    Effect services machine (1 + m) push (onFrame Frame.popInt >>= next) :=
  (draws_onFrame Frame.draws_popInt).bind fun value _ => rest value

theorem effect_popLong {next : Int64 → Step α}
    (rest : ∀ value, Effect services machine pop push (next value)) :
    Effect services machine (2 + pop) push (onFrame Frame.popLong >>= next) :=
  (draws_onFrame Frame.draws_popLong).bind fun value _ => rest value

theorem effect_popFloat {next : UInt32 → Step α}
    (rest : ∀ value, Effect services machine pop push (next value)) :
    Effect services machine (1 + pop) push (onFrame Frame.popFloat >>= next) :=
  (draws_onFrame Frame.draws_popFloat).bind fun value _ => rest value

theorem effect_popDouble {next : UInt64 → Step α}
    (rest : ∀ value, Effect services machine pop push (next value)) :
    Effect services machine (2 + pop) push (onFrame Frame.popDouble >>= next) :=
  (draws_onFrame Frame.draws_popDouble).bind fun value _ => rest value

theorem effect_negate (kind : NumberKind) :
    Effect services machine kind.slots kind.slots (negate kind) := by
  cases kind with
  | int => exact effect_popInt fun _ => effect_push .int rfl
  | long => exact effect_popLong fun _ => effect_push .long rfl
  | float => exact effect_popFloat fun _ => effect_push .float rfl
  | double => exact effect_popDouble fun _ => effect_push .double rfl

theorem effect_shift (op : ShiftOp) (kind : IntegerKind) :
    Effect services machine (1 + kind.slots) kind.slots (shift op kind) := by
  cases kind with
  | int => exact effect_popInt fun _ => effect_popInt fun _ => effect_push .int rfl
  | long => exact effect_popInt fun _ => effect_popLong fun _ => effect_push .long rfl

theorem effect_bitwise (op : BitwiseOp) (kind : IntegerKind) :
    Effect services machine (2 * kind.slots) kind.slots (bitwise op kind) := by
  cases kind with
  | int => exact effect_popInt fun _ => effect_popInt fun _ => effect_push .int rfl
  | long => exact effect_popLong fun _ => effect_popLong fun _ => effect_push .long rfl

theorem effect_convert (source target : NumberKind) :
    Effect services machine source.slots target.slots (convert source target) := by
  cases source with
  | int => exact effect_popInt fun _ => effect_push target.valueKind (by cases target <;> rfl)
  | long => exact effect_popLong fun _ => effect_push target.valueKind (by cases target <;> rfl)
  | float => exact effect_popFloat fun _ => effect_push target.valueKind (by cases target <;> rfl)
  | double => exact effect_popDouble fun _ => effect_push target.valueKind (by cases target <;> rfl)

theorem effect_narrow (kind : NarrowKind) : Effect services machine 1 1 (narrow kind) :=
  effect_popInt fun _ => effect_push .int rfl

theorem effect_compareLongs : Effect services machine 4 1 compareLongs :=
  effect_popLong fun _ => effect_popLong fun _ => effect_push .int rfl

theorem effect_compareFloats (unorderedGreater : Bool) :
    Effect services machine 2 1 (compareFloats unorderedGreater) :=
  effect_popFloat fun _ => effect_popFloat fun _ => effect_push .int rfl

theorem effect_compareDoubles (unorderedGreater : Bool) :
    Effect services machine 4 1 (compareDoubles unorderedGreater) :=
  effect_popDouble fun _ => effect_popDouble fun _ => effect_push .int rfl

section Division

variable (builtin : ClassSource.StartsBuiltin services.sources)
  (sound : machine.Sound services.sources)

include builtin sound

theorem effect_pushQuotient {result : Option Value} {kind : ValueKind}
    (same : ∀ value, result = some value → value.kind = .value kind) :
    Effect services machine 0 kind.slots (pushQuotient result) := by
  unfold pushQuotient
  cases result with
  | some value => exact effect_push kind (same value rfl)
  | none => exact effect_throwNew builtin sound (by decide) _

theorem effect_arithmetic (op : ArithmeticOp) (kind : NumberKind) :
    Effect services machine (2 * kind.slots) kind.slots (arithmetic op kind) := by
  have ofMap {γ : Type} {result : Option γ} {make : γ → Value} {kind : ValueKind}
      (made : ∀ number, (make number).kind = .value kind) (value : Value)
      (given : result.map make = some value) : value.kind = .value kind := by
    obtain ⟨number, -, rfl⟩ := Option.map_eq_some_iff.mp given
    exact made number
  cases kind with
  | int =>
    exact effect_popInt fun _ => effect_popInt fun _ =>
      effect_pushQuotient builtin sound (ofMap fun _ => rfl)
  | long =>
    exact effect_popLong fun _ => effect_popLong fun _ =>
      effect_pushQuotient builtin sound (ofMap fun _ => rfl)
  | float => exact effect_popFloat fun _ => effect_popFloat fun _ => effect_push .float rfl
  | double => exact effect_popDouble fun _ => effect_popDouble fun _ => effect_push .double rfl

end Division

/-! ## Instructions on slots -/

theorem effect_load (op : Opcode) (kind : ValueKind) (index : Nat) :
    Effect services machine 0 kind.slots (load op kind index) := by
  refine (draws_onFrame (Frame.draws_getLocal index)).bind (m := 0) fun value _ => ?_
  split
  · exact (draws_fault _).bind (n := 0) (m := 0) fun (_ : PUnit) (none : False) => none.elim
  · next same => exact effect_push kind (not_not.mp same)

theorem effect_pushSlots (slots : List Value) :
    Effect services machine 0 slots.length (slots.forM fun slot => onFrame (Frame.pushSlot slot)) := by
  induction slots with
  | nil => exact effect_pure ()
  | cons slot rest ih =>
    rw [List.length_cons, Nat.add_comm]
    exact effect_add_bind (Frame.adds_pushSlot slot) ih

theorem effect_duplicate (count skip : Nat) :
    Effect services machine (count + skip) (2 * count + skip) (duplicate count skip) := by
  refine (draws_onFrame (Frame.draws_popSlots count)).bind (m := skip) fun top topLength => ?_
  refine (draws_onFrame (Frame.draws_popSlots skip)).bind (m := 0) fun under underLength => ?_
  have copied : (top ++ under ++ top).length = 2 * count + skip := by
    rw [List.length_append, List.length_append, topLength, underLength]
    omega
  rw [← copied]
  exact effect_pushSlots _

theorem effect_swap : Effect services machine 2 2 swap := by
  refine (draws_onFrame Frame.draws_popSlot).bind (m := 1) fun first _ => ?_
  refine (draws_onFrame Frame.draws_popSlot).bind (m := 0) fun second _ => ?_
  exact effect_add_bind (Frame.adds_pushSlot first) (effect_onFrame (Frame.adds_pushSlot second))

/-! ## Instructions on objects and arrays -/

theorem draws_object (ref : Ref) :
    Draws services machine 0 (· = machine.heap.get ref) (onMachine (Exec.object ref)) := by
  refine fun frame cursor => ⟨fun _ _ ended => ?_, fun _ _ => nofun⟩
  cases ended
  exact ⟨rfl, rfl, rfl, rfl⟩

theorem draws_componentOf (op : Opcode) (kind : ElementKind) (object : HeapObject) :
    Draws services machine 0
      (fun component => kind.accepts component = true ∧
        ∃ slots, object.array? = some (component, slots))
      (componentOf op kind object) := by
  unfold componentOf
  split
  · next component slots array =>
    split
    · next accepts => exact draws_pure ⟨accepts, slots, array⟩
    · exact draws_fault _
  · exact draws_fault _

theorem draws_checkKind (op : Opcode) (type : FieldType) (value : Value) :
    Draws services machine 0 (fun _ => value.kind = .value type.kind) (checkKind op type value) := by
  unfold checkKind
  split
  · exact draws_fault _
  · next same => exact draws_pure (not_not.mp same)

theorem slots_of_accepts {kind : ElementKind} {component : FieldType}
    (accepts : kind.accepts component = true) : component.kind.slots = kind.slots := by
  unfold ElementKind.accepts at accepts
  split at accepts <;> first | rfl | cases accepts | skip
  next reference => rw [FieldType.isReference_iff.mp accepts]; rfl

section Objects

variable (builtin : ClassSource.StartsBuiltin services.sources)
  (sound : machine.Sound services.sources)

include builtin sound

theorem effect_indexOutOfBounds (object : HeapObject) (index : Int32) :
    Effect services machine pop push (indexOutOfBounds object index : Step α) :=
  effect_throwNew builtin sound (by decide) _

theorem effect_loadElement (op : Opcode) (kind : ElementKind) :
    Effect services machine 2 kind.slots (loadElement op kind) := by
  refine effect_popInt (m := 1) fun index => ?_
  refine (draws_popObject builtin sound).bind (m := 0) fun ref _ => ?_
  refine (draws_object ref).bind (m := 0) fun object here => ?_
  refine (draws_componentOf op kind object).bind (m := 0) fun component isArray => ?_
  obtain ⟨accepts, slots, array⟩ := isArray
  split
  · next value held =>
    have element : value ∈ slots := by
      unfold HeapObject.element? at held
      rw [array] at held
      split at held
      · next position same _ =>
        cases same
        exact Array.mem_of_getElem? held
      · cases held
    have holds := (here ▸ sound.heap.typed ref).elements component slots array value element
    rw [← slots_of_accepts accepts]
    exact effect_push _ holds.kind
  · exact effect_indexOutOfBounds builtin sound object index

theorem effect_arrayLength : Effect services machine 1 1 arrayLength := by
  refine (draws_popObject builtin sound).bind (m := 0) fun ref _ => ?_
  refine (draws_object ref).bind (m := 0) fun object _ => ?_
  split
  · exact effect_push .int rfl
  · exact effect_of_fails fun _ _ => ⟨_, _, rfl, fun _ same => by cases same; exact nofun⟩

theorem draws_checkElement (array : HeapObject) (value : Value) :
    Draws services machine 0 anything (checkElement array value) := by
  unfold checkElement
  split
  · refine (draws_object _).andThen (m := 0) fun element _ => ?_
    split
    · exact draws_throwNew builtin sound (by decide) _
    · exact draws_pure trivial
  · exact draws_pure trivial

end Objects

/-! ## Storing whole values -/

section Whole

variable {frame : Frame} {cursor : Nat} {next : Value → Step β}

/-- In a stack of whole values there is nothing, or a whole value on top of others. -/
theorem cases_of_slotForm (slotForm : frame.InSlotForm) :
    frame.stack.size = 0 ∨ ∃ rest value, value ≠ .top ∧
      frame.stack.toList = rest ++ Value.toSlots [value] := by
  obtain ⟨values, whole, slots⟩ := slotForm
  rcases List.eq_nil_or_concat values with rfl | ⟨below, value, rfl⟩
  · left
    rw [← Array.length_toList, slots]
    rfl
  · right
    rw [List.concat_eq_append] at whole slots
    refine ⟨Value.toSlots below, value, fun top => whole (by simp [top]), ?_⟩
    rw [slots, Value.toSlots_append]

/-- What takes a value off the stack and goes on with it takes as many slots as the value has where it
completes. -/
theorem moves_pop_bind {m : Nat} (slotForm : frame.InSlotForm)
    (each : ∀ value, Effect services machine m 0 (next value))
    (kinds : ∀ value state result after,
      next value services state = .ok result after → (Value.toSlots [value]).length = n) :
    Moves (n + m) 0 frame ((onFrame Frame.pop >>= next) services ⟨machine, frame, cursor⟩) := by
  rcases cases_of_slotForm slotForm with empty | ⟨rest, value, proper, last⟩
  · have popped : Frame.pop frame = .error (.virtualMachine (.stackUnderflow frame.site)) frame := by
      unfold Frame.pop
      simp only [Bind.bind, EStateM.bind, Frame.popSlot_eq, empty, if_true]
    have ended : onFrame Frame.pop services ⟨machine, frame, cursor⟩ =
        .error (.fatal (.virtualMachine (.stackUnderflow frame.site))) ⟨machine, frame, cursor⟩ := by
      simp only [onFrame, popped]
    rw [bind_of_error ended]
    refine ⟨fun _ _ same => ?_, fun _ _ same overflow => ?_⟩
    · cases same
    · cases same
      cases overflow.choose_spec.choose_spec
  · have popped : onFrame Frame.pop services ⟨machine, frame, cursor⟩ =
        .ok value ⟨machine, frame.withStack rest, cursor⟩ := by
      simp only [onFrame, Frame.pop_of_last last proper]
    rw [bind_of_ok popped]
    have moves := each value (frame.withStack rest) cursor
    have below : (frame.withStack rest).depth = rest.length := List.size_toArray
    have above : frame.depth = rest.length + (Value.toSlots [value]).length := by
      rw [Frame.depth, ← Array.length_toList, last, List.length_append]
    refine ⟨fun result after ended => ?_, fun error after ended overflow => ?_⟩
    · have moved := moves.completes result after ended
      have slots := kinds value _ result after ended
      omega
    · have full := moves.overflows error after ended overflow
      have code : (frame.withStack rest).code = frame.code := rfl
      rw [code] at full
      omega

theorem slots_of_storable {kind : ValueKind} {value : Value} (stored : storable kind value = true) :
    (Value.toSlots [value]).length = kind.slots := by
  cases kind <;> cases value <;> first | rfl | simp [storable, Value.kind] at stored

theorem moves_store (op : Opcode) (kind : ValueKind) (index : Nat) (slotForm : frame.InSlotForm) :
    Moves kind.slots 0 frame (store op kind index services ⟨machine, frame, cursor⟩) := by
  refine moves_pop_bind (n := kind.slots) (m := 0) slotForm (fun value => ?_)
    fun value state result after ended => ?_
  · dsimp only
    split
    · exact (draws_fault _).bind (n := 0) (m := 0) fun (_ : PUnit) (none : False) => none.elim
    · exact (draws_onFrame (Frame.draws_setLocal index value)).effect
  · dsimp only at ended
    split at ended
    · obtain ⟨_, _, faulted, -⟩ := exists_of_bind_ok ended
      cases faulted
    · next stored => exact slots_of_storable (by simpa using stored)

theorem effect_setSlot (ref : Ref) (slot : Nat) (value : Value) :
    Effect services machine 0 0 (onMachine (Exec.setSlot ref slot value)) := by
  refine fun frame cursor => ⟨fun _ _ ended => ?_, fun _ _ => nofun⟩
  cases ended
  exact ⟨Nat.zero_le _, rfl⟩

theorem moves_storeElement (builtin : ClassSource.StartsBuiltin services.sources)
    (sound : machine.Sound services.sources) (op : Opcode) (kind : ElementKind)
    (slotForm : frame.InSlotForm) :
    Moves (2 + kind.slots) 0 frame (storeElement op kind services ⟨machine, frame, cursor⟩) := by
  rw [Nat.add_comm]
  refine moves_pop_bind (n := kind.slots) (m := 2) slotForm (fun value => ?_)
    fun value state result after ended => ?_
  · refine effect_popInt (m := 1) fun index => ?_
    refine (draws_popObject builtin sound).bind (m := 0) fun ref _ => ?_
    refine (draws_object ref).bind (m := 0) fun object _ => ?_
    refine (draws_componentOf op kind object).bind (m := 0) fun component _ => ?_
    refine (draws_checkKind op component value).bind (m := 0) fun _ _ => ?_
    refine (draws_checkElement builtin sound object value).bind (m := 0) fun _ _ => ?_
    split
    · exact effect_setSlot ref _ _
    · exact effect_indexOutOfBounds builtin sound object index
  · obtain ⟨index, state, -, ended⟩ := exists_of_bind_ok ended
    obtain ⟨ref, state, -, ended⟩ := exists_of_bind_ok ended
    obtain ⟨object, state, -, ended⟩ := exists_of_bind_ok ended
    obtain ⟨component, state', chosen, ended⟩ := exists_of_bind_ok ended
    obtain ⟨_, state'', checked, -⟩ := exists_of_bind_ok ended
    have found : Draws services state.machine 0 _ (componentOf op kind object) :=
      draws_componentOf op kind object
    have kinds : Draws services state'.machine 0 _ (checkKind op component value) :=
      draws_checkKind op component value
    have accepts := ((found state.frame state.cursor).1 component state' chosen).1.1
    have same := ((kinds state'.frame state'.cursor).1 _ state'' checked).1
    rw [length_toSlots_of_kind same, slots_of_accepts accepts]

end Whole

/-! ## Returning -/

end Step

/-- A value as a method returns it: an int is cut to the type that the method declares. -/
def Method.returned (method : Method) (value : Value) : Value :=
  match method.descriptor.returnType with
  | some type => Value.narrow type value
  | none => value

namespace Frame

variable {α : Type} {frame after : Frame} {make : α → Value} {operation : FrameM α} {value : α}

/-- What an operation gives is what was on top of the stack, in the form of a value. -/
def Takes (make : α → Value) (operation : FrameM α) : Prop :=
  ∀ frame value after, operation frame = .ok value after →
    after.method = frame.method ∧
      frame.stack.toList = after.stack.toList ++ Value.toSlots [make value]

theorem popSlot_eq_ok {value : Value} (ended : popSlot frame = .ok value after) :
    after.method = frame.method ∧ frame.stack.toList = after.stack.toList ++ [value] := by
  rcases List.eq_nil_or_concat frame.stack.toList with none | ⟨rest, last, slots⟩
  · rw [popSlot_eq, if_pos (by simpa using none)] at ended
    cases ended
  · rw [List.concat_eq_append] at slots
    rw [popSlot_of_last slots] at ended
    cases ended
    exact ⟨rfl, slots⟩

theorem exists_of_bind_ok {β : Type} {next : α → FrameM β} {result : β}
    (ended : (operation >>= next) frame = .ok result after) :
    ∃ value between, operation frame = .ok value between ∧ next value between = .ok result after := by
  simp only [Bind.bind, EStateM.bind] at ended
  cases first : operation frame with
  | ok value between =>
    rw [first] at ended
    exact ⟨value, between, rfl, ended⟩
  | error error between =>
    rw [first] at ended
    cases ended

theorem takes_popInt : Takes .int popInt := by
  intro frame value after ended
  obtain ⟨slot, between, popped, ended⟩ := exists_of_bind_ok ended
  split at ended
  · cases ended
    exact popSlot_eq_ok popped
  · cases ended

theorem takes_popFloat : Takes .float popFloat := by
  intro frame value after ended
  obtain ⟨slot, between, popped, ended⟩ := exists_of_bind_ok ended
  split at ended
  · cases ended
    exact popSlot_eq_ok popped
  · cases ended

theorem takes_popReference : Takes .reference popReference := by
  intro frame value after ended
  obtain ⟨slot, between, popped, ended⟩ := exists_of_bind_ok ended
  split at ended
  · cases ended
    exact popSlot_eq_ok popped
  · cases ended

theorem popFiller_eq_ok (ended : popFiller frame = .ok () after) :
    after.method = frame.method ∧ frame.stack.toList = after.stack.toList ++ [.top] := by
  obtain ⟨slot, between, popped, ended⟩ := exists_of_bind_ok ended
  split at ended
  · cases ended
    exact popSlot_eq_ok popped
  · cases ended

theorem takes_popLong : Takes .long popLong := by
  intro frame value after ended
  obtain ⟨_, between, filler, ended⟩ := exists_of_bind_ok ended
  obtain ⟨slot, last, popped, ended⟩ := exists_of_bind_ok ended
  split at ended
  · cases ended
    obtain ⟨method, slots⟩ := popFiller_eq_ok filler
    obtain ⟨methodLast, slotsLast⟩ := popSlot_eq_ok popped
    rw [slots, slotsLast, List.append_assoc]
    exact ⟨methodLast.trans method, rfl⟩
  · cases ended

theorem takes_popDouble : Takes .double popDouble := by
  intro frame value after ended
  obtain ⟨_, between, filler, ended⟩ := exists_of_bind_ok ended
  obtain ⟨slot, last, popped, ended⟩ := exists_of_bind_ok ended
  split at ended
  · cases ended
    obtain ⟨method, slots⟩ := popFiller_eq_ok filler
    obtain ⟨methodLast, slotsLast⟩ := popSlot_eq_ok popped
    rw [slots, slotsLast, List.append_assoc]
    exact ⟨methodLast.trans method, rfl⟩
  · cases ended

end Frame

namespace Step

variable {services : Services} {machine : Machine} {frame : Frame} {cursor : Nat} {next : Next}
  {after : StepState}

theorem narrowResult_eq (value : Value) (state : StepState) :
    narrowResult value services state = .ok (state.frame.method.returned value) state := by
  have read : Step.frame services state = .ok state.frame state := rfl
  rw [narrowResult, bind_of_ok read, Method.returned]
  cases state.frame.method.descriptor.returnType <;> rfl

theorem draws_narrowResult (value : Value) :
    Draws services machine 0 anything (narrowResult value) := by
  intro frame cursor
  rw [narrowResult_eq]
  refine ⟨fun _ _ ended => ?_, fun _ _ => nofun⟩
  cases ended
  exact ⟨trivial, rfl, rfl, rfl⟩

theorem effect_returnValue (kind : ValueKind) :
    Effect services machine kind.slots 0 (returnValue kind) := by
  cases kind with
  | int =>
    exact effect_popInt fun _ => (draws_narrowResult _).bind (m := 0) fun _ _ => effect_pure _
  | long => exact effect_popLong fun _ => effect_pure _
  | float => exact effect_popFloat fun _ => effect_pure _
  | double => exact effect_popDouble fun _ => effect_pure _
  | reference =>
    exact (draws_onFrame Frame.draws_popReference).bind (m := 0) fun _ _ => effect_pure _

theorem exists_of_onFrame_ok {α : Type} {operation : FrameM α} {value : α} {state : StepState}
    (ended : onFrame operation services state = .ok value after) :
    operation state.frame = .ok value after.frame := by
  unfold onFrame at ended
  dsimp only at ended
  cases worked : operation state.frame with
  | ok other left =>
    rw [worked] at ended
    cases ended
    rfl
  | error error left =>
    rw [worked] at ended
    cases ended

/-- The value on top of the stack is returned, cut to the type that the method declares. -/
theorem returns_returnValue {kind : ValueKind} {state : StepState}
    (ended : returnValue kind services state = .ok next after) :
    ∃ value : Value, value.kind = .value kind ∧
      state.frame.stack.toList = after.frame.stack.toList ++ Value.toSlots [value] ∧
      next = .finish (some (state.frame.method.returned value)) := by
  have same {make : Value} (plain : ∀ number, make ≠ .int number) (method : Method) :
      make = method.returned make := by
    unfold Method.returned Value.narrow
    cases method.descriptor.returnType with
    | none => rfl
    | some type => cases make <;> first | rfl | exact absurd rfl (plain _) | (cases type <;> rfl)
  cases kind with
  | int =>
    obtain ⟨value, between, popped, ended⟩ := exists_of_bind_ok ended
    rw [bind_of_ok (narrowResult_eq _ between)] at ended
    cases ended
    obtain ⟨method, slots⟩ := Frame.takes_popInt _ _ _ (exists_of_onFrame_ok popped)
    exact ⟨.int value, rfl, slots, by rw [method]⟩
  | long =>
    obtain ⟨value, between, popped, ended⟩ := exists_of_bind_ok ended
    cases ended
    obtain ⟨-, slots⟩ := Frame.takes_popLong _ _ _ (exists_of_onFrame_ok popped)
    exact ⟨.long value, rfl, slots, by rw [← same (by nofun)]⟩
  | float =>
    obtain ⟨value, between, popped, ended⟩ := exists_of_bind_ok ended
    cases ended
    obtain ⟨-, slots⟩ := Frame.takes_popFloat _ _ _ (exists_of_onFrame_ok popped)
    exact ⟨.float value, rfl, slots, by rw [← same (by nofun)]⟩
  | double =>
    obtain ⟨value, between, popped, ended⟩ := exists_of_bind_ok ended
    cases ended
    obtain ⟨-, slots⟩ := Frame.takes_popDouble _ _ _ (exists_of_onFrame_ok popped)
    exact ⟨.double value, rfl, slots, by rw [← same (by nofun)]⟩
  | reference =>
    obtain ⟨value, between, popped, ended⟩ := exists_of_bind_ok ended
    cases ended
    obtain ⟨-, slots⟩ := Frame.takes_popReference _ _ _ (exists_of_onFrame_ok popped)
    exact ⟨.reference value, rfl, slots, by rw [← same (by nofun)]⟩

/-! ## Instructions -/

/-- What an instruction does to the stack of its frame, given how many slots it pops and pushes. -/
structure HasEffect (op : Opcode) (pop push : Nat) (frame : Frame)
    (result : EStateM.Result Interruption StepState Next) : Prop where
  underflow (short : frame.depth < pop) : ∃ interruption after, result = .error interruption after
  room (before : frame.depth ≤ frame.code.maxStack)
    (behind : frame.depth + push ≤ frame.code.maxStack + pop) (error : Error) (after : StepState)
    (ended : result = .error (.fatal error) after) : ¬ error.IsOverflow
  depth (next : Next) (after : StepState) (ended : result = .ok next after) :
    after.frame.depth = frame.depth - pop + push
  proceeds (plain : op.endsBlock = false) (next : Next) (after : StepState)
    (ended : result = .ok next after) : next = .proceed
  returns (kind : ValueKind) (isReturn : op = .returnValue kind) (next : Next) (after : StepState)
    (ended : result = .ok next after) : ∃ value : Value, value.kind = .value kind ∧
      frame.stack.toList = after.frame.stack.toList ++ Value.toSlots [value] ∧
      next = .finish (some (frame.method.returned value))
  returnsNothing (isReturn : op = .returnVoid) (next : Next) (after : StepState)
    (ended : result = .ok next after) : next = .finish none

theorem Moves.proceeding {pop push : Nat} {action : Step Unit} {state : StepState}
    (moves : Moves pop push frame (action services state)) :
    Moves pop push frame (proceeding action services state) := by
  unfold Step.proceeding
  cases ended : action services state with
  | ok value after =>
    rw [bind_of_ok ended]
    refine ⟨fun _ _ same => ?_, fun _ _ => nofun⟩
    cases same
    exact moves.completes value after ended
  | error interruption after =>
    rw [bind_of_error ended]
    refine ⟨fun _ _ => nofun, fun error _ same => ?_⟩
    cases same
    exact moves.overflows error after ended

theorem effect_proceeding {pop push : Nat} {action : Step Unit}
    (effect : Effect services machine pop push action) :
    Effect services machine pop push (proceeding action) :=
  fun frame cursor => (effect frame cursor).proceeding

theorem next_of_proceeding {action : Step Unit} {state : StepState}
    (ended : proceeding action services state = .ok next after) : next = .proceed := by
  obtain ⟨_, _, -, ended⟩ := exists_of_bind_ok ended
  cases ended
  rfl

section Execute

variable (builtin : ClassSource.StartsBuiltin services.sources)
  (sound : machine.Sound services.sources)

include builtin sound

/-- Each instruction of the table moves as many slots as the table says. -/
theorem moves_execute {op : Opcode} {pop push : Nat} (listed : op.stackEffect = some (pop, push))
    (slotForm : frame.InSlotForm) :
    Moves pop push frame (execute op services ⟨machine, frame, cursor⟩) := by
  cases op with
  | nop => cases listed; exact effect_proceeding (effect_pure ()) frame cursor
  | aconstNull => cases listed; exact effect_proceeding (effect_push .reference rfl) frame cursor
  | iconst => cases listed; exact effect_proceeding (effect_push .int rfl) frame cursor
  | fconst => cases listed; exact effect_proceeding (effect_push .float rfl) frame cursor
  | lconst => cases listed; exact effect_proceeding (effect_push .long rfl) frame cursor
  | dconst => cases listed; exact effect_proceeding (effect_push .double rfl) frame cursor
  | loadShort kind index =>
    cases listed
    exact effect_proceeding (effect_load _ kind index) frame cursor
  | storeShort kind index =>
    cases listed
    exact (moves_store _ kind index slotForm).proceeding
  | arrayLoad kind =>
    cases listed
    exact effect_proceeding (effect_loadElement builtin sound _ kind) frame cursor
  | arrayStore kind =>
    cases listed
    exact (moves_storeElement builtin sound _ kind slotForm).proceeding
  | pop =>
    cases listed
    exact effect_proceeding ((draws_onFrame Frame.draws_popSlot).bind (m := 0) fun _ _ =>
      effect_pure ()) frame cursor
  | pop2 =>
    cases listed
    exact effect_proceeding ((draws_onFrame (Frame.draws_popSlots 2)).bind (m := 0) fun _ _ =>
      effect_pure ()) frame cursor
  | dup two skip =>
    cases listed
    exact effect_proceeding (effect_duplicate _ _) frame cursor
  | swap => cases listed; exact effect_proceeding effect_swap frame cursor
  | arithmetic operation kind =>
    cases listed
    exact effect_proceeding (effect_arithmetic builtin sound operation kind) frame cursor
  | negate kind => cases listed; exact effect_proceeding (effect_negate kind) frame cursor
  | shift operation kind =>
    cases listed
    exact effect_proceeding (effect_shift operation kind) frame cursor
  | bitwise operation kind =>
    cases listed
    exact effect_proceeding (effect_bitwise operation kind) frame cursor
  | convert source target =>
    cases listed
    exact effect_proceeding (effect_convert source target) frame cursor
  | narrow kind => cases listed; exact effect_proceeding (effect_narrow kind) frame cursor
  | lcmp => cases listed; exact effect_proceeding effect_compareLongs frame cursor
  | fcmp greater => cases listed; exact effect_proceeding (effect_compareFloats greater) frame cursor
  | dcmp greater => cases listed; exact effect_proceeding (effect_compareDoubles greater) frame cursor
  | returnValue kind => cases listed; exact effect_returnValue kind frame cursor
  | returnVoid => cases listed; exact effect_pure _ frame cursor
  | arraylength =>
    cases listed
    exact effect_proceeding (effect_arrayLength builtin sound) frame cursor
  | athrow =>
    cases listed
    exact (draws_popObject builtin sound).bind (m := 0) (fun ref _ =>
      effect_of_fails fun _ _ => ⟨.thrown ref, _, rfl, nofun⟩) frame cursor
  | monitorenter | monitorexit =>
    cases listed
    exact effect_proceeding ((draws_popObject builtin sound).bind (m := 0) fun _ _ =>
      effect_pure ()) frame cursor
  | _ => cases listed

end Execute

/-- Where control goes on after an instruction of the table. -/
theorem next_execute {op : Opcode} {pop push : Nat} (listed : op.stackEffect = some (pop, push))
    (plain : op.endsBlock = false) {state : StepState}
    (ended : execute op services state = .ok next after) : next = .proceed := by
  cases op with
  | returnValue | returnVoid | athrow => cases plain
  | invokevirtual | invokespecial | invokestatic | invokeinterface | invokedynamic => cases listed
  | _ => exact next_of_proceeding ended

theorem instruction_of_byte {state : StepState} {byte : UInt8} {op : Opcode}
    (ahead : state.frame.code.bytes[state.cursor]? = some byte)
    (decoded : Opcode.ofByte? byte = some op) :
    instruction services state = execute op services { state with cursor := state.cursor + 1 } := by
  obtain ⟨within, rfl⟩ := Array.getElem?_eq_some_iff.mp ahead
  have read := (readByte_checked services state).inside within
  unfold instruction
  rw [bind_of_ok read, decoded]

/-- **The table of stack effects agrees with the instructions**: in a sound machine, on a stack of
whole values, an instruction of the table fails if the stack is too short, never finds it full if
there is room for the slots before and after it, and leaves as many slots as the table says when it
completes. A return takes the value that it returns. -/
theorem instruction_hasEffect {state : StepState} {byte : UInt8} {op : Opcode} {pop push : Nat}
    (builtin : ClassSource.StartsBuiltin services.sources)
    (sound : state.machine.Sound services.sources) (slotForm : state.frame.InSlotForm)
    (ahead : state.frame.code.bytes[state.cursor]? = some byte)
    (decoded : Opcode.ofByte? byte = some op) (listed : op.stackEffect = some (pop, push)) :
    HasEffect op pop push state.frame (instruction services state) := by
  obtain ⟨machine, frame, cursor⟩ := state
  have moves : Moves pop push frame (execute op services ⟨machine, frame, cursor + 1⟩) :=
    moves_execute builtin sound listed slotForm
  rw [instruction_of_byte ahead decoded]
  refine ⟨fun short => ?_, fun before behind error after ended overflow => ?_,
    fun next after ended => ?_, fun plain next after ended => next_execute listed plain ended, ?_, ?_⟩
  · cases ended : execute op services ⟨machine, frame, cursor + 1⟩ with
    | ok next after => exact absurd (moves.completes next after ended).1 (Nat.not_le_of_lt short)
    | error interruption after => exact ⟨interruption, after, rfl⟩
  · have full := moves.overflows error after ended overflow
    dsimp only at before behind
    omega
  · have moved := moves.completes next after ended
    dsimp only
    omega
  · rintro kind rfl next after ended
    have returned : returnValue kind services ⟨machine, frame, cursor + 1⟩ = .ok next after := ended
    have shown := returns_returnValue returned
    exact shown
  · rintro rfl next after ended
    cases ended
    rfl

/-! ## Two instructions -/

/-- A new machine before the only instruction of a method that gives a byte, with some slots on the
stack. -/
def beforeOnly (op : Opcode) (stack : Array Value) : StepState where
  machine := {}
  frame := {
    owner := default
    method := { (default : Method) with descriptor := ⟨[], some .byte⟩ }
    code := { (default : Code) with maxStack := stack.size, bytes := #[op.byte] }
    pc := 0
    resumePc := 0
    locals := #[]
    stack }
  cursor := 0

/-- Six times seven, as longs. -/
theorem instruction_hasEffect_product :
    (beforeOnly (.arithmetic .mul .long) #[.long 6, .top, .long 7, .top]).frame.stack.toList =
        Value.toSlots [.long 6, .long 7] ∧
      HasEffect (.arithmetic .mul .long) 4 2
        (beforeOnly (.arithmetic .mul .long) #[.long 6, .top, .long 7, .top]).frame
        (instruction Services.builtin
          (beforeOnly (.arithmetic .mul .long) #[.long 6, .top, .long 7, .top])) := by
  refine ⟨by decide, ?_⟩
  exact instruction_hasEffect Services.startsBuiltin_builtin (Machine.sound_new _)
    ⟨[.long 6, .long 7], by decide, by decide⟩ rfl (by decide +kernel) rfl

/-- **A return need not give the very value that was on top of the stack**: an int that is no byte is
cut where the method gives a byte. -/
theorem instruction_cuts_returned :
    ClassSource.StartsBuiltin Services.builtin.sources ∧
      (beforeOnly (.returnValue .int) #[.int 200]).machine.Sound Services.builtin.sources ∧
      (beforeOnly (.returnValue .int) #[.int 200]).frame.stack.toList = Value.toSlots [.int 200] ∧
      Opcode.stackEffect (.returnValue .int) = some (1, 0) ∧
      ∃ after, instruction Services.builtin (beforeOnly (.returnValue .int) #[.int 200]) =
        .ok (.finish (some (.int (-56)))) after :=
  have decoded : Opcode.ofByte? (Opcode.returnValue .int).byte = some (.returnValue .int) := by
    decide +kernel
  ⟨Services.startsBuiltin_builtin, Machine.sound_new _, by decide, rfl, _,
    (instruction_of_byte rfl decoded).trans rfl⟩

end Step

end JavaMachine