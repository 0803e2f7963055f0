import JavaMachine.Proofs.Instruction.StackEffect

/-! # Instructions without operands

An instruction of the table of stack effects has no operands. One that goes on behind it has left
the cursor where it was when its opcode had been read (`Step.still_execute`). -/

namespace JavaMachine

open Operation (exists_of_bind_ok)

namespace Step

variable {α β : Type} {pop push : Nat}

/-- A part of an instruction that reads nothing. -/
def Still (action : Step α) : Prop :=
  ∀ services state value after, action services state = .ok value after →
    after.cursor = state.cursor

theorem still_pure (value : α) : Still (pure value) := by
  intro services state result after ended
  cases ended
  rfl

theorem Still.bind {action : Step α} {next : α → Step β} (first : Still action)
    (rest : ∀ value, Still (next value)) : Still (action >>= next) := by
  intro services state result after ended
  obtain ⟨value, between, began, ended⟩ := exists_of_bind_ok ended
  exact (rest value _ _ _ _ ended).trans (first _ _ _ _ began)

theorem still_onFrame (operation : FrameM α) : Still (onFrame operation) := by
  intro services state value after ended
  obtain ⟨frame, -, rfl⟩ := onFrame_eq_ok ended
  rfl

theorem still_onMachine (action : Exec α) : Still (onMachine action) := by
  rintro services ⟨machine, frame, cursor⟩ value after ended
  simp only [onMachine] at ended
  split at ended
  · cases ended
    rfl
  · cases ended

theorem still_fault (fault : InstructionFault) : Still (Step.fault fault : Step α) := by
  intro services state value after ended
  cases ended

theorem still_check {failed : Prop} [Decidable failed] {fault : InstructionFault} {next : Step α}
    (rest : Still next) : Still (do
      if failed then Step.fault fault
      next) := by
  split
  · exact (still_fault fault).bind fun _ => rest
  · exact rest

theorem still_popObject : Still popObject := by
  refine (still_onFrame _).bind fun target => ?_
  split
  · exact still_pure _
  · exact still_onMachine _

theorem still_load (op : Opcode) (kind : ValueKind) (index : Nat) : Still (load op kind index) :=
  (still_onFrame _).bind fun _ => still_check (still_onFrame _)

theorem still_store (op : Opcode) (kind : ValueKind) (index : Nat) : Still (store op kind index) :=
  (still_onFrame _).bind fun _ => still_check (still_onFrame _)

theorem still_componentOf (op : Opcode) (kind : ElementKind) (object : HeapObject) :
    Still (componentOf op kind object) := by
  unfold componentOf
  split
  · split
    · exact still_pure _
    · exact still_fault _
  · exact still_fault _

theorem still_loadElement (op : Opcode) (kind : ElementKind) : Still (loadElement op kind) := by
  refine (still_onFrame _).bind fun index => still_popObject.bind fun ref => ?_
  refine (still_onMachine _).bind fun object => (still_componentOf op kind object).bind fun _ => ?_
  split
  · exact still_onFrame _
  · exact still_onMachine _

theorem still_checkKind (op : Opcode) (type : FieldType) (value : Value) :
    Still (checkKind op type value) := by
  unfold checkKind
  split
  · exact still_fault _
  · exact still_pure _

theorem still_checkElement (array : HeapObject) (value : Value) :
    Still (checkElement array value) := by
  unfold checkElement
  split
  · refine (still_onMachine _).bind fun element => ?_
    split
    · exact still_onMachine _
    · exact still_pure _
  · exact still_pure _

theorem still_storeElement (op : Opcode) (kind : ElementKind) : Still (storeElement op kind) := by
  refine (still_onFrame _).bind fun value => (still_onFrame _).bind fun index => ?_
  refine still_popObject.bind fun ref => (still_onMachine _).bind fun object => ?_
  refine (still_componentOf op kind object).bind fun component => ?_
  refine (still_checkKind op component value).bind fun _ => ?_
  refine (still_checkElement object value).bind fun _ => ?_
  split
  · exact still_onMachine _
  · exact still_onMachine _

theorem still_pushSlots (slots : List Value) :
    Still (slots.forM fun slot => onFrame (Frame.pushSlot slot)) := by
  induction slots with
  | nil => exact still_pure ()
  | cons slot rest ih => exact (still_onFrame _).bind fun _ => ih

theorem still_duplicate (count skip : Nat) : Still (duplicate count skip) :=
  (still_onFrame _).bind fun _ => (still_onFrame _).bind fun _ => still_pushSlots _

theorem still_swap : Still swap :=
  (still_onFrame _).bind fun _ => (still_onFrame _).bind fun _ =>
    (still_onFrame _).bind fun _ => still_onFrame _

theorem still_pushQuotient (result : Option Value) : Still (pushQuotient result) := by
  unfold pushQuotient
  split
  · exact still_onFrame _
  · exact still_onMachine _

/-- An operation on two numbers. -/
theorem still_twice {γ : Type} {first second : FrameM α} {next : α → α → Step γ}
    (rest : ∀ a b, Still (next a b)) :
    Still (do
      let b ← onFrame first
      let a ← onFrame second
      next a b) :=
  (still_onFrame _).bind fun _ => (still_onFrame _).bind fun _ => rest _ _

theorem still_arithmetic (operation : ArithmeticOp) (kind : NumberKind) :
    Still (arithmetic operation kind) := by
  cases kind with
  | int => exact still_twice fun _ _ => still_pushQuotient _
  | long => exact still_twice fun _ _ => still_pushQuotient _
  | float => exact still_twice fun _ _ => still_onFrame _
  | double => exact still_twice fun _ _ => still_onFrame _

theorem still_negate (kind : NumberKind) : Still (negate kind) := by
  cases kind <;> exact (still_onFrame _).bind fun _ => still_onFrame _

theorem still_shift (operation : ShiftOp) (kind : IntegerKind) : Still (shift operation kind) := by
  cases kind <;>
    exact (still_onFrame _).bind fun _ => (still_onFrame _).bind fun _ => still_onFrame _

theorem still_bitwise (operation : BitwiseOp) (kind : IntegerKind) :
    Still (bitwise operation kind) := by
  cases kind <;> exact still_twice fun _ _ => still_onFrame _

theorem still_convert (source target : NumberKind) : Still (convert source target) := by
  cases source <;> exact (still_onFrame _).bind fun _ => still_onFrame _

theorem still_arrayLength : Still arrayLength := by
  refine still_popObject.bind fun ref => (still_onMachine _).bind fun object => ?_
  split
  · exact still_onFrame _
  · exact still_onMachine _

theorem Still.proceeding {action : Step Unit} (still : Still action) : Still (proceeding action) :=
  Still.bind still fun _ => still_pure _

/-- An instruction of the table that goes on at the cursor has read nothing but its opcode. -/
theorem still_execute {op : Opcode} (listed : op.stackEffect = some (pop, push))
    (plain : op.endsBlock = false) : Still (execute op) := by
  cases op with
  | nop => exact (still_pure ()).proceeding
  | aconstNull | iconst | fconst | lconst | dconst => exact (still_onFrame _).proceeding
  | loadShort kind index => exact (still_load _ kind index).proceeding
  | storeShort kind index => exact (still_store _ kind index).proceeding
  | arrayLoad kind => exact (still_loadElement _ kind).proceeding
  | arrayStore kind => exact (still_storeElement _ kind).proceeding
  | pop | pop2 => exact ((still_onFrame _).bind fun _ => still_pure ()).proceeding
  | dup two skip => exact (still_duplicate _ _).proceeding
  | swap => exact still_swap.proceeding
  | arithmetic operation kind => exact (still_arithmetic operation kind).proceeding
  | negate kind => exact (still_negate kind).proceeding
  | shift operation kind => exact (still_shift operation kind).proceeding
  | bitwise operation kind => exact (still_bitwise operation kind).proceeding
  | convert source target => exact (still_convert source target).proceeding
  | narrow kind => exact ((still_onFrame _).bind fun _ => still_onFrame _).proceeding
  | lcmp => exact (still_twice fun _ _ => still_onFrame _).proceeding
  | fcmp greater => exact (still_twice fun _ _ => still_onFrame _).proceeding
  | dcmp greater => exact (still_twice fun _ _ => still_onFrame _).proceeding
  | arraylength => exact still_arrayLength.proceeding
  | monitorenter | monitorexit => exact (still_popObject.bind fun _ => still_pure ()).proceeding
  | returnValue | returnVoid | athrow => cases plain
  | _ => cases listed

end Step

end JavaMachine
