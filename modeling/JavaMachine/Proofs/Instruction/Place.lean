import JavaMachine.Proofs.Instruction.Compositional
import JavaMachine.Proofs.Machine.Phases

/-! # The place of a frame

While an instruction is executed, its frame keeps its method, its code and its place in it: only the
operand stack and the locals change, and they keep to the bounds that the code gives. So a method
that has called another one is still at the instruction of the call. -/

namespace JavaMachine

/-- One frame is the other one, at the same place, with other contents. -/
def Frame.SamePlace (before after : Frame) : Prop :=
  ∃ locals stack, after = { before with locals, stack }

theorem Frame.SamePlace.refl (frame : Frame) : frame.SamePlace frame :=
  ⟨frame.locals, frame.stack, rfl⟩

theorem Frame.SamePlace.trans {first second third : Frame} (near : first.SamePlace second)
    (far : second.SamePlace third) : first.SamePlace third := by
  obtain ⟨_, _, rfl⟩ := near
  obtain ⟨locals, stack, rfl⟩ := far
  exact ⟨locals, stack, rfl⟩

section SamePlace

variable {before after : Frame} (same : before.SamePlace after)

include same

theorem Frame.SamePlace.owner : after.owner = before.owner := by
  obtain ⟨_, _, rfl⟩ := same
  rfl

theorem Frame.SamePlace.code : after.code = before.code := by
  obtain ⟨_, _, rfl⟩ := same
  rfl

theorem Frame.SamePlace.pc : after.pc = before.pc := by
  obtain ⟨_, _, rfl⟩ := same
  rfl

end SamePlace

/-- What an operation on a frame keeps: the place, the number of locals, and a stack of no more slots
than the code asks for. -/
structure Frame.Keeps (before after : Frame) : Prop where
  place : before.SamePlace after
  locals : after.locals.size = before.locals.size
  stack : after.stack.size ≤ max before.stack.size before.code.maxStack

theorem Frame.Keeps.refl (frame : Frame) : frame.Keeps frame :=
  ⟨.refl frame, rfl, Nat.le_max_left _ _⟩

theorem Frame.Keeps.trans {first second third : Frame} (near : first.Keeps second)
    (far : second.Keeps third) : first.Keeps third := by
  refine ⟨near.place.trans far.place, far.locals.trans near.locals, ?_⟩
  have bound := far.stack
  rw [near.place.code] at bound
  exact bound.trans (max_le near.stack (Nat.le_max_right _ _))

/-- A stack with as many slots as the code asks for at most, and as many locals as it asks for. -/
structure Frame.Bounded (frame : Frame) : Prop where
  stack : frame.stack.size ≤ frame.code.maxStack
  locals : frame.locals.size = frame.code.maxLocals

theorem Frame.Keeps.bounded {before after : Frame} (keeps : before.Keeps after)
    (bounded : before.Bounded) : after.Bounded := by
  obtain ⟨⟨_, _, rfl⟩, locals, stack⟩ := keeps
  exact ⟨stack.trans (max_le bounded.stack le_rfl), locals.trans bounded.locals⟩

/-! ## Operations on frames -/

/-- The state that an operation on a frame ends in, with a result or without. -/
def endFrame {α : Type} : EStateM.Result Error Frame α → Frame
  | .ok _ frame | .error _ frame => frame

namespace Frame

variable {α β : Type}

/-- An operation that leaves the frame at its place and within its bounds. -/
def Stays (operation : FrameM α) : Prop :=
  ∀ frame, Keeps frame (endFrame (operation frame))

theorem stays_pure (value : α) : Stays (pure value) :=
  fun frame => .refl frame

theorem stays_get : Stays get :=
  fun frame => .refl frame

theorem stays_throw (error : Error) : Stays (throw error : FrameM α) :=
  fun frame => .refl frame

theorem stays_modify {change : Frame → Frame} (kept : ∀ frame, Keeps frame (change frame)) :
    Stays (modify change) :=
  kept

theorem Stays.bind {operation : FrameM α} {next : α → FrameM β} (first : Stays operation)
    (rest : ∀ value, Stays (next value)) : Stays (operation >>= next) := by
  intro frame
  have near := first frame
  simp only [Bind.bind, EStateM.bind]
  cases ended : operation frame with
  | ok value after =>
    rw [ended] at near
    exact near.trans (rest value after)
  | error error after =>
    rw [ended] at near
    exact near

theorem stays_fail (fault : Frame → MachineFault) : Stays (fail fault : FrameM α) :=
  Stays.bind stays_get fun _ => stays_throw _

theorem keeps_pushed {frame : Frame} (value : Value) (room : frame.stack.size < frame.code.maxStack) :
    Keeps frame { frame with stack := frame.stack.push value } := by
  refine ⟨⟨_, _, rfl⟩, rfl, ?_⟩
  rw [Array.size_push]
  exact room.trans_le (Nat.le_max_right _ _)

theorem keeps_shortened {frame : Frame} {stack : Array Value}
    (fewer : stack.size ≤ frame.stack.size) : Keeps frame { frame with stack } :=
  ⟨⟨_, _, rfl⟩, rfl, fewer.trans (Nat.le_max_left _ _)⟩

theorem keeps_changed {frame : Frame} {locals : Array Value}
    (asMany : locals.size = frame.locals.size) : Keeps frame { frame with locals } :=
  ⟨⟨_, _, rfl⟩, asMany, Nat.le_max_left _ _⟩

theorem pushSlot_eq (value : Value) (frame : Frame) : pushSlot value frame =
    if frame.stack.size ≥ frame.code.maxStack then
      .error (.virtualMachine (.stackOverflow frame.site frame.code.maxStack)) frame
    else .ok () { frame with stack := frame.stack.push value } := by
  unfold pushSlot
  simp only [Bind.bind, EStateM.bind, get, getThe, MonadStateOf.get, EStateM.get]
  split <;> rfl

/-- A slot is put on the stack only where there is room for it. -/
theorem stays_pushSlot (value : Value) : Stays (pushSlot value) := by
  intro frame
  rw [pushSlot_eq]
  split
  · exact .refl frame
  · next room => exact keeps_pushed value (Nat.lt_of_not_le room)

theorem stays_push (value : Value) : Stays (push value) := by
  refine (stays_pushSlot value).bind fun _ => ?_
  split
  · exact stays_pushSlot _
  · exact stays_pure _

theorem stays_popSlot : Stays popSlot := by
  refine Stays.bind stays_get fun frame => ?_
  split
  · exact stays_fail _
  · exact (stays_modify fun frame => keeps_shortened (by simp)).bind fun _ => stays_pure _

theorem stays_pop : Stays pop := by
  refine Stays.bind stays_popSlot fun value => ?_
  split
  · refine Stays.bind stays_popSlot fun value => ?_
    split
    · exact stays_pure _
    · exact stays_fail _
  · exact stays_pure _

theorem stays_popSlots (count : Nat) : Stays (popSlots count) := by
  refine Stays.bind stays_get fun frame => ?_
  dsimp only
  split
  · exact stays_fail _
  · refine Stays.bind stays_get fun frame => ?_
    exact (stays_modify fun frame => keeps_shortened (by simp)).bind fun _ => stays_pure _

theorem stays_popFiller : Stays popFiller := by
  refine Stays.bind stays_popSlot fun value => ?_
  split
  · exact stays_pure _
  · exact stays_fail _

/-- Taking a slot that must hold a value of a kind. -/
theorem stays_popInt : Stays popInt := by
  refine Stays.bind stays_popSlot fun value => ?_
  split
  · exact stays_pure _
  · exact stays_fail _

theorem stays_popLong : Stays popLong := by
  refine Stays.bind stays_popFiller fun _ => Stays.bind stays_popSlot fun value => ?_
  split
  · exact stays_pure _
  · exact stays_fail _

theorem stays_popFloat : Stays popFloat := by
  refine Stays.bind stays_popSlot fun value => ?_
  split
  · exact stays_pure _
  · exact stays_fail _

theorem stays_popDouble : Stays popDouble := by
  refine Stays.bind stays_popFiller fun _ => Stays.bind stays_popSlot fun value => ?_
  split
  · exact stays_pure _
  · exact stays_fail _

theorem stays_popReference : Stays popReference := by
  refine Stays.bind stays_popSlot fun value => ?_
  split
  · exact stays_pure _
  · exact stays_fail _

theorem stays_getLocal (index : Nat) : Stays (getLocal index) := by
  refine Stays.bind stays_get fun frame => ?_
  split
  · exact stays_pure _
  · exact stays_fail _

theorem stays_setLocal (index : Nat) (value : Value) : Stays (setLocal index value) := by
  refine Stays.bind stays_get fun frame => ?_
  dsimp only
  split
  · split
    · exact stays_fail _
    · exact (stays_modify fun frame => keeps_changed (by simp)).bind fun _ =>
        stays_modify fun frame => keeps_changed (by simp)
  · split
    · exact stays_fail _
    · exact stays_modify fun frame => keeps_changed (by simp)

theorem Used.stays (operation : FrameM α) [used : Used operation] : Stays operation := by
  cases used with
  | push value => exact stays_push value
  | pushSlot value => exact stays_pushSlot value
  | pop => exact stays_pop
  | popSlot => exact stays_popSlot
  | popSlots count => exact stays_popSlots count
  | popInt => exact stays_popInt
  | popLong => exact stays_popLong
  | popFloat => exact stays_popFloat
  | popDouble => exact stays_popDouble
  | popReference => exact stays_popReference
  | getLocal index => exact stays_getLocal index
  | setLocal index value => exact stays_setLocal index value

end Frame

/-! ## Instructions -/

namespace Step

variable {α β : Type}

/-- A part of an instruction that leaves the frame at its place and within its bounds. -/
def Stays (action : Step α) : Prop :=
  ∀ (services : Services) (state : StepState),
    state.frame.Keeps (endState (action services state)).frame

theorem stays_of_same {action : Step α}
    (same : ∀ services state, (endState (action services state)).frame = state.frame) :
    Stays action := by
  intro services state
  rw [same services state]
  exact .refl _

theorem Stays.bind {action : Step α} {next : α → Step β} (first : Stays action)
    (rest : ∀ value, Stays (next value)) : Stays (action >>= next) := by
  intro services state
  have near := first services state
  simp only [Bind.bind, ReaderT.bind, EStateM.bind]
  cases ended : action services state with
  | ok value after =>
    rw [ended] at near
    exact near.trans (rest value services after)
  | error interruption after =>
    rw [ended] at near
    exact near

theorem stays_onMachine (action : Exec α) : Stays (onMachine action) := by
  refine stays_of_same fun services state => ?_
  simp only [onMachine]
  cases action services state.machine <;> rfl

theorem stays_onFrame {operation : FrameM α} (stays : Frame.Stays operation) :
    Stays (onFrame operation) := by
  intro services state
  have near := stays state.frame
  simp only [onFrame]
  cases ended : operation state.frame with
  | ok value after =>
    rw [ended] at near
    exact near
  | error error after =>
    rw [ended] at near
    exact near

end Step

theorem stays_compositional :
    Compositional (fun _ _ => True) (fun _ action => Step.Stays action) where
  exec_pure _ := trivial
  exec_bind _ _ := trivial
  exec_throw _ := trivial
  exec_get := trivial
  exec_load _ := trivial
  exec_invoke _ _ _ := trivial
  exec_setStatic _ _ _ := trivial
  exec_allocate _ := trivial
  exec_setSlot _ _ _ := trivial
  exec_newString _ := trivial
  exec_intern _ := trivial
  exec_print _ _ := trivial
  exec_readClock := trivial
  exec_initializing _ _ _ := trivial
  step_pure _ := Step.stays_of_same fun _ _ => rfl
  step_bind := Step.Stays.bind
  step_throw _ := Step.stays_of_same fun _ _ => rfl
  step_onMachine _ := Step.stays_onMachine _
  step_onFrame operation := Step.stays_onFrame (Frame.Used.stays operation)
  step_frame := Step.stays_of_same fun _ _ => rfl
  step_cursor := Step.stays_of_same fun _ _ => rfl
  step_seek _ := Step.stays_of_same fun _ _ => rfl
  step_arrayLimit := Step.stays_of_same fun _ _ => rfl
  step_setLink _ _ := (Step.stays_of_same fun _ _ => rfl).bind fun _ => Step.stays_onMachine _

/-- **An instruction leaves its frame at its place and within its bounds**, however it ends. -/
theorem Step.keeps_instruction (services : Services) (state : StepState) :
    state.frame.Keeps (endState (Step.instruction services state)).frame :=
  stays_compositional.step_instruction services state

/-! ## Calls -/

namespace Opcode

/-- The instructions that call methods. -/
def IsCall : Opcode → Prop
  | invokevirtual | invokespecial | invokestatic | invokeinterface => True
  | _ => False

end Opcode

/-- The frame is at an instruction that calls a method. -/
def Frame.AtCall (frame : Frame) : Prop :=
  ∃ byte op, frame.code.bytes[frame.pc]? = some byte ∧ Opcode.ofByte? byte = some op ∧ op.IsCall

theorem Frame.SamePlace.atCall {before after : Frame} (same : before.SamePlace after)
    (atCall : before.AtCall) : after.AtCall := by
  obtain ⟨_, _, rfl⟩ := same
  exact atCall

namespace Step

variable {α : Type} {services : Services} {state after : StepState} {next : Next}

/-- What always ends in one of some ways, if it ends with a result. -/
theorem eq_of_bind_pure {action : Step α} {value : α → Next}
    (ended : (action >>= fun a => pure (value a)) services state = .ok next after) :
    ∃ a, next = value a := by
  simp only [Bind.bind, ReaderT.bind, EStateM.bind] at ended
  split at ended
  · cases ended
    exact ⟨_, rfl⟩
  · cases ended

theorem not_call_of_proceeding {action : Step Unit} {owner : LinkedClass} {index : Nat}
    {arguments : List Value} :
    proceeding action services state ≠ .ok (.call owner index arguments) after := by
  intro ended
  obtain ⟨_, clash⟩ := eq_of_bind_pure ended
  cases clash

/-- Only the instructions that call methods end with a call. -/
theorem isCall_of_execute {op : Opcode} {owner : LinkedClass} {index : Nat}
    {arguments : List Value}
    (ended : execute op services state = .ok (.call owner index arguments) after) : op.IsCall := by
  cases op with
  | invokevirtual | invokespecial | invokestatic | invokeinterface => trivial
  | invokedynamic => cases ended
  | returnVoid => cases ended
  | returnValue kind =>
    cases kind with
    | int =>
      have inTwo : execute (.returnValue .int) =
          (onFrame Frame.popInt >>= fun value => narrowResult (.int value)) >>= fun result =>
            pure (Next.finish (some result)) := (bind_assoc _ _ _).symm
      rw [inTwo] at ended
      obtain ⟨_, clash⟩ := eq_of_bind_pure ended
      cases clash
    | long | float | double | reference =>
      obtain ⟨_, clash⟩ := eq_of_bind_pure ended
      cases clash
  | athrow =>
    unfold execute at ended
    simp only [Bind.bind, ReaderT.bind, EStateM.bind] at ended
    split at ended
    · cases ended
    · cases ended
  | _ => exact absurd ended not_call_of_proceeding

theorem readByte_eq_ok {byte : UInt8} (ended : readByte services state = .ok byte after) :
    state.frame.code.bytes[state.cursor]? = some byte ∧
      after = { state with cursor := state.cursor + 1 } := by
  unfold readByte at ended
  simp only [Bind.bind, ReaderT.bind, EStateM.bind, cursor, frame] at ended
  cases found : state.frame.code.bytes[state.cursor]? with
  | some read =>
    rw [found] at ended
    cases ended
    exact ⟨rfl, rfl⟩
  | none =>
    rw [found] at ended
    cases ended

/-- **A frame that calls a method is at the instruction of the call.** -/
theorem atCall_of_instruction {machine : Machine} {frame : Frame} {owner : LinkedClass}
    {index : Nat} {arguments : List Value}
    (ended : Step.instruction services ⟨machine, frame, frame.pc⟩ =
      .ok (.call owner index arguments) after) : after.frame.AtCall := by
  have same := (Step.keeps_instruction services ⟨machine, frame, frame.pc⟩).place
  rw [ended] at same
  refine same.atCall ?_
  unfold Step.instruction at ended
  simp only [Bind.bind, ReaderT.bind, EStateM.bind] at ended
  cases begun : readByte services ⟨machine, frame, frame.pc⟩ with
  | ok byte begun' =>
    obtain ⟨found, -⟩ := readByte_eq_ok begun
    rw [begun] at ended
    cases named : Opcode.ofByte? byte with
    | some op =>
      simp only [named] at ended
      exact ⟨byte, op, found, named, isCall_of_execute ended⟩
    | none =>
      simp only [named] at ended
      cases ended
  | error interruption begun' =>
    rw [begun] at ended
    cases ended

end Step

end JavaMachine
