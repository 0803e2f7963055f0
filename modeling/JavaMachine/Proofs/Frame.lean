import JavaMachine.Proofs.Assembler.Locals

/-! # Frames as stacks of values

A frame offers its stack both slot by slot and value by value. Whatever has been done to a frame in
either way, and however it ended, a value that is put on the stack comes off again as it was, and an
operation that fails does no more than take off what it has looked at (`Frame.Reached.handlesValues`).
A frame that has only been used value by value is a stack of whole values. -/

namespace JavaMachine

namespace Frame

variable {start frame after : Frame} {value : Value} {error : Error} {α : Type}

/-- What can be done to the stack and the locals of a frame. -/
inductive Action where
  | push (value : Value)
  | pushSlot (value : Value)
  | pop
  | popSlot
  | store (index : Nat) (value : Value)

namespace Action

/-- Does an action, and gives what it takes off the stack. -/
def perform : Action → FrameM (Option Value)
  | push value => do Frame.push value; return none
  | pushSlot value => do Frame.pushSlot value; return none
  | pop => do return some (← Frame.pop)
  | popSlot => do return some (← Frame.popSlot)
  | store index value => do setLocal index value; return none

/-- An action that deals with values and not with the slots that they take. -/
def OnValues : Action → Prop
  | push value => value ≠ .top
  | pushSlot _ | popSlot => False
  | pop | store _ _ => True

/-- How an action that fails can have changed the stack: a wide value has room for one of its slots
only, or there is a filler on top and no wide value below it. -/
inductive Disturbs (frame : Frame) : Action → Frame → Prop
  | push {value : Value} (wide : value.isWide = true)
      (last : frame.stack.size + 1 = frame.code.maxStack) (more : List Value) :
      Disturbs frame (push value) (frame.withStack (frame.stack.toList ++ more))
  | pop {rest looked : List Value} (slots : frame.stack.toList = rest ++ looked)
      (unfit : rest = [] ∧ looked = [.top] ∨
        ∃ value : Value, value.isWide = false ∧ looked = [value, .top]) :
      Disturbs frame pop (frame.withStack rest)

end Action

/-- A frame that actions have made of another one. Those that have failed count too. -/
inductive Reached (start : Frame) : Frame → Prop
  | start : Reached start start
  | step {frame : Frame} (reached : Reached start frame) (action : Action) :
      Reached start (endFrame (action.perform frame))

/-- A frame that actions on values have made of another one, all with success. -/
inductive ReachedByValues (start : Frame) : Frame → Prop
  | start : ReachedByValues start start
  | step {frame after : Frame} {action : Action} {result : Option Value}
      (reached : ReachedByValues start frame) (onValues : action.OnValues)
      (ended : action.perform frame = .ok result after) : ReachedByValues start after

/-- What a frame does with values. -/
structure HandlesValues (frame : Frame) : Prop where
  bounded : frame.Bounded
  /-- A value is put on the stack wherever there is room for it. -/
  pushes : ∀ value, (∃ after, push value frame = .ok () after) ↔
    frame.stack.size + (Value.toSlots [value]).length ≤ frame.code.maxStack
  /-- To take off what was put on the stack undoes it. -/
  undoes : ∀ value after, value ≠ .top → push value frame = .ok () after →
    pop after = .ok value frame
  /-- A wide value comes off the stack with the filler directly above it. If there is nothing above
  it, it comes off alone. -/
  wide : ∀ value after, value.isWide = true → pop frame = .ok value after →
    after = frame.withStack after.stack.toList ∧
      (frame.stack.toList = after.stack.toList ++ [value, .top] ∨
        frame.stack.toList = after.stack.toList ++ [value])
  /-- A failure changes nothing, or what it disturbs. -/
  fails : ∀ (action : Action) error after, action.perform frame = .error error after →
    after = frame ∨ action.Disturbs frame after

/-- What a stack of whole values does besides. -/
structure HandlesWhole (frame : Frame) : Prop where
  slotForm : frame.InSlotForm
  /-- A wide value comes off the stack with the filler directly above it. -/
  wide : ∀ value after, value.isWide = true → pop frame = .ok value after →
    frame.stack.toList = after.stack.toList ++ [value, .top]
  /-- Only an empty stack has no value to take off, and stays as it is. -/
  pops : ∀ error after, pop frame = .error error after → frame.stack.size = 0 ∧ after = frame

/-! ## Actions that complete -/

theorem pop_of_push (proper : value ≠ .top) (pushed : push value frame = .ok () after) :
    pop after = .ok value frame := by
  obtain ⟨-, rfl⟩ := push_eq_ok_iff.mp pushed
  exact pop_of_last rfl proper

theorem exists_push_iff : (∃ after, push value frame = .ok () after) ↔
    frame.stack.size + (Value.toSlots [value]).length ≤ frame.code.maxStack := by
  simp only [push_eq_ok_iff, exists_and_left, exists_eq, and_true]

theorem slots_of_pop (popped : pop frame = .ok value after) :
    after = frame.withStack after.stack.toList ∧
      (frame.stack.toList = after.stack.toList ++ [value, .top] ∨
        frame.stack.toList = after.stack.toList ++ [value]) := by
  obtain ⟨rest, ⟨-, slots⟩, rfl⟩ := pop_eq_ok_iff.mp popped
  exact ⟨rfl, slots.elim .inr fun both => .inl both.2⟩

/-! ## Actions that fail -/

theorem eq_of_pushSlot_error (failed : pushSlot value frame = .error error after) :
    after = frame ∧ frame.code.maxStack ≤ frame.stack.size := by
  rw [pushSlot_eq] at failed
  split at failed
  · next full =>
    cases failed
    exact ⟨rfl, full⟩
  · cases failed

theorem eq_of_popSlot_error (failed : popSlot frame = .error error after) :
    after = frame ∧ frame.stack.toList = [] := by
  rw [popSlot_eq] at failed
  split at failed
  · next empty =>
    cases failed
    exact ⟨rfl, by simpa using empty⟩
  · cases failed

theorem eq_of_setLocal_error {index : Nat} (failed : setLocal index value frame = .error error after) :
    after = frame := by
  unfold setLocal at failed
  simp only [Bind.bind, EStateM.bind, get, getThe, MonadStateOf.get, EStateM.get] at failed
  split at failed
  · split at failed <;> cases failed
    rfl
  · split at failed <;> cases failed
    rfl

theorem cases_of_bind_error {β : Type} {operation : FrameM α} {next : α → FrameM β}
    (failed : (operation >>= next) frame = .error error after) :
    operation frame = .error error after ∨
      ∃ result between, operation frame = .ok result between ∧
        next result between = .error error after := by
  simp only [Bind.bind, EStateM.bind] at failed
  cases first : operation frame with
  | ok result between =>
    rw [first] at failed
    exact .inr ⟨result, between, rfl, failed⟩
  | error fault between =>
    rw [first] at failed
    cases failed
    exact .inl rfl

/-- A value that does not fit leaves the frame as it was, if not for one of its slots. -/
theorem disturbs_of_push_error (failed : push value frame = .error error after) :
    after = frame ∨ (Action.push value).Disturbs frame after := by
  rcases cases_of_bind_error failed with first | ⟨⟨⟩, between, first, second⟩
  · exact .inl (eq_of_pushSlot_error first).1
  · obtain ⟨room, rfl⟩ := pushSlot_eq_ok_iff.mp first
    split at second
    · next wide =>
      obtain ⟨rfl, full⟩ := eq_of_pushSlot_error second
      have size : (frame.withStack (frame.stack.toList ++ [value])).stack.size =
          frame.stack.size + 1 := by
        simp [withStack]
      have last : frame.stack.size + 1 = frame.code.maxStack :=
        le_antisymm room (size ▸ full)
      exact .inr (.push wide last [value])
    · cases second

/-- Where there is no value to take off, the filler and what stands in the place of a wide value are
gone. -/
theorem disturbs_of_pop_error (failed : pop frame = .error error after) :
    after = frame ∧ frame.stack.toList = [] ∨ Action.pop.Disturbs frame after := by
  rcases cases_of_bind_error failed with first | ⟨slot, between, first, second⟩
  · exact .inl (eq_of_popSlot_error first)
  · obtain ⟨rest, slots, rfl⟩ := popSlot_eq_ok_iff.mp first
    split at second
    · rcases cases_of_bind_error second with below | ⟨under, left, below, third⟩
      · obtain ⟨rfl, empty⟩ := eq_of_popSlot_error below
        exact .inr (.pop slots (.inl ⟨empty, rfl⟩))
      · obtain ⟨others, slots', rfl⟩ := popSlot_eq_ok_iff.mp below
        have both : frame.stack.toList = others ++ [under, .top] := by
          rw [slots, show rest = others ++ [under] from slots', List.append_assoc]
          rfl
        split at third
        · cases third
        · next narrow =>
          cases third
          exact .inr (.pop both (.inr ⟨under, by simpa using narrow, rfl⟩))
    · cases second

theorem disturbs_of_error {action : Action} (failed : action.perform frame = .error error after) :
    after = frame ∨ action.Disturbs frame after := by
  cases action with
  | push value =>
    rcases cases_of_bind_error failed with first | ⟨_, _, _, second⟩
    · exact disturbs_of_push_error first
    · cases second
  | pushSlot value =>
    rcases cases_of_bind_error failed with first | ⟨_, _, _, second⟩
    · exact .inl (eq_of_pushSlot_error first).1
    · cases second
  | pop =>
    rcases cases_of_bind_error failed with first | ⟨_, _, _, second⟩
    · exact (disturbs_of_pop_error first).imp_left And.left
    · cases second
  | popSlot =>
    rcases cases_of_bind_error failed with first | ⟨_, _, _, second⟩
    · exact .inl (eq_of_popSlot_error first).1
    · cases second
  | store index value =>
    rcases cases_of_bind_error failed with first | ⟨_, _, _, second⟩
    · exact .inl (eq_of_setLocal_error first)
    · cases second

/-! ## Frames that are reached -/

theorem Action.stays_perform (action : Action) : Stays action.perform := by
  cases action with
  | push value => exact (stays_push value).bind fun _ => stays_pure _
  | pushSlot value => exact (stays_pushSlot value).bind fun _ => stays_pure _
  | pop => exact stays_pop.bind fun _ => stays_pure _
  | popSlot => exact stays_popSlot.bind fun _ => stays_pure _
  | store index value => exact (stays_setLocal index value).bind fun _ => stays_pure _

theorem Reached.keeps (reached : start.Reached frame) : start.Keeps frame := by
  induction reached with
  | start => exact .refl start
  | step reached action near => exact near.trans (action.stays_perform _)

/-- A stack of whole values is empty, or gives the last of them. -/
theorem InSlotForm.pop_eq (slotForm : frame.InSlotForm) :
    frame.stack.size = 0 ∧ (∃ error, pop frame = .error error frame) ∨
      ∃ value after, pop frame = .ok value after ∧ after.InSlotForm ∧
        frame.stack.toList = after.stack.toList ++ Value.toSlots [value] := by
  obtain ⟨values, whole, slots⟩ := slotForm
  rcases List.eq_nil_or_concat values with rfl | ⟨below, value, rfl⟩
  · have empty : frame.stack.size = 0 := by
      rw [← Array.length_toList, slots]
      rfl
    refine .inl ⟨empty, .virtualMachine (.stackUnderflow frame.site), ?_⟩
    unfold pop
    simp only [Bind.bind, EStateM.bind, popSlot_eq, empty, if_true]
  · rw [List.concat_eq_append] at whole slots
    rw [Value.toSlots_append] at slots
    have proper : value ≠ .top := fun filler => whole (by simp [filler])
    exact .inr ⟨value, _, pop_of_last slots proper,
      ⟨below, fun inside => whole (List.mem_append_left _ inside), rfl⟩, slots⟩

/-- A stack of whole values stays one while actions on values complete. -/
theorem Action.inSlotForm_perform {action : Action} {result : Option Value}
    (slotForm : frame.InSlotForm) (onValues : action.OnValues)
    (ended : action.perform frame = .ok result after) : after.InSlotForm := by
  cases action with
  | push value =>
    obtain ⟨values, whole, slots⟩ := slotForm
    obtain ⟨⟨⟩, _, pushed, same⟩ := exists_of_bind_ok ended
    cases same
    obtain ⟨-, rfl⟩ := push_eq_ok_iff.mp pushed
    refine ⟨values ++ [value], by simpa [whole] using Ne.symm onValues, ?_⟩
    rw [Value.toSlots_append, ← slots]
    rfl
  | pushSlot value => exact onValues.elim
  | pop =>
    obtain ⟨value, _, popped, same⟩ := exists_of_bind_ok ended
    cases same
    rcases slotForm.pop_eq with ⟨-, _, failed⟩ | ⟨_, _, popped', remains, -⟩
    · rw [popped] at failed
      cases failed
    · rw [popped] at popped'
      cases popped'
      exact remains
  | popSlot => exact onValues.elim
  | store index value =>
    obtain ⟨⟨⟩, _, stored, same⟩ := exists_of_bind_ok ended
    cases same
    obtain ⟨-, _, -, rfl⟩ := setLocal_eq_ok_iff.mp stored
    exact slotForm

theorem ReachedByValues.inSlotForm (slotForm : start.InSlotForm)
    (reached : start.ReachedByValues frame) : frame.InSlotForm := by
  induction reached with
  | start => exact slotForm
  | step reached onValues ended near => exact Action.inSlotForm_perform near onValues ended

theorem InSlotForm.handlesWhole (slotForm : frame.InSlotForm) : frame.HandlesWhole := by
  refine ⟨slotForm, fun value after wide popped => ?_, fun error after failed => ?_⟩
  · rcases slotForm.pop_eq with ⟨-, _, failed⟩ | ⟨_, _, popped', -, slots⟩
    · rw [popped] at failed
      cases failed
    · rw [popped] at popped'
      cases popped'
      rw [slots, Value.toSlots, List.flatMap_singleton, if_pos wide]
  · rcases slotForm.pop_eq with ⟨empty, _, failed'⟩ | ⟨_, _, popped, -, -⟩
    · rw [failed] at failed'
      cases failed'
      exact ⟨empty, rfl⟩
    · rw [failed] at popped
      cases popped

section Entered

variable {owner : LinkedClass} {index : Nat} {arguments : List Value}

theorem bounded_of_enter (entered : enter owner index arguments = .ok start) :
    start.Bounded ∧ start.stack.toList = [] := by
  unfold enter at entered
  split at entered
  · cases entered
  · dsimp only at entered
    split at entered
    · cases entered
    · split at entered
      · cases entered
      · cases entered
        refine ⟨⟨Nat.zero_le _, ?_⟩, rfl⟩
        simp only [Array.size_append, List.size_toArray, Array.size_replicate]
        omega

/-- **A frame is a stack of values**, whatever was done to it since the call started: what is put on
the stack comes off as it was, and a failure leaves the locals and the slots below what it looked at.
As long as it was only used value by value, wide values come off with their fillers, and there is a
value to take off unless the stack is empty. -/
theorem Reached.handlesValues (entered : enter owner index arguments = .ok start)
    (reached : start.Reached frame) :
    frame.HandlesValues ∧ (start.ReachedByValues frame → frame.HandlesWhole) := by
  obtain ⟨bounded, empty⟩ := bounded_of_enter entered
  refine ⟨?_, fun byValues => ?_⟩
  · exact {
      bounded := reached.keeps.bounded bounded
      pushes := fun _ => exists_push_iff
      undoes := fun _ _ => pop_of_push
      wide := fun _ _ _ => slots_of_pop
      fails := fun _ _ _ => disturbs_of_error }
  · have slotForm : start.InSlotForm := ⟨[], List.not_mem_nil, empty⟩
    exact (byValues.inSlotForm slotForm).handlesWhole

end Entered

/-- A body with two slots for its stack. -/
def shelfCode : Code := { (default : Code) with maxStack := 2 }

/-- A method with that body. -/
def shelfMethod : Method := { (default : Method) with name := "fill", code := some shelfCode }

/-- A class with that method. -/
def shelf : LinkedClass :=
  .mk { (default : ClassInfo) with name := "Shelf", methods := #[shelfMethod] } none [] none []

/-- The frame of a call of the method. -/
def shelfFrame : Frame := ⟨shelf, shelfMethod, shelfCode, 0, 0, #[], #[]⟩

theorem Reached.handlesValues_shelf : enter shelf 0 [] = .ok shelfFrame ∧
    (endFrame ((Action.push (.long 7)).perform shelfFrame)).HandlesValues ∧
      (endFrame ((Action.push (.long 7)).perform shelfFrame)).HandlesWhole := by
  have entered : enter shelf 0 [] = .ok shelfFrame := rfl
  have values : (Action.push (.long 7)).OnValues := Value.noConfusion
  have handles := Reached.handlesValues entered (.step .start (.push (.long 7)))
  exact ⟨entered, handles.1, handles.2 (.step .start values rfl)⟩

/-- **Taking off is not undone, and not always of whole values**: where slots were put on the stack
one by one, a filler above an int is gone with the int, and a long comes off without a filler. -/
theorem pop_takes_halves : enter shelf 0 [] = .ok shelfFrame ∧
    (∃ frame error after, shelfFrame.Reached frame ∧ pop frame = .error error after ∧
      frame.stack = #[.int 1, .top] ∧ after.stack = #[]) ∧
    ∃ frame after, shelfFrame.Reached frame ∧ pop frame = .ok (.long 7) after ∧
      frame.stack = #[.long 7] := by
  refine ⟨rfl, ?_, ?_⟩
  · exact ⟨_, _, _, .step (.step .start (.pushSlot (.int 1))) (.pushSlot .top), rfl, rfl, rfl⟩
  · exact ⟨_, _, .step .start (.pushSlot (.long 7)), rfl, rfl⟩

end Frame

end JavaMachine
