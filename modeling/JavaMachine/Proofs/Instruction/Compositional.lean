import JavaMachine.Proofs.Instruction.Informed
import JavaMachine.Proofs.Machine.Compositional

/-! # Compositional properties of instructions

A property of actions that holds of the simplest ones and of sequences holds of every instruction,
whatever bytes it is made of. -/

namespace JavaMachine.Compositional

variable {OfExec : ∀ α : Type, Exec α → Prop} {OfStep : ∀ α : Type, Step α → Prop}
  (closed : Compositional OfExec OfStep)

include closed

theorem step_repeated {action : Step Ref} (each : Shown OfStep anything action) (count : Nat)
    (made : Array Value) : Shown OfStep anything (Step.repeated action count made) := by
  induction count generalizing made with
  | zero => exact closed.informed.step_pure trivial
  | succ count ih => exact closed.informed.step_bind each fun _ _ => ih _

/-- The arrays of an outer array are made by the same action, one for each element. -/
theorem step_allocateNested (c : LinkedClass) (length : Nat) (inner : List Nat) :
    Shown OfStep anything (Step.allocateNested c length inner) := by
  have shows := closed.informed
  induction inner generalizing c length with
  | nil => exact shows.step_allocateArray trivial length
  | cons first rest ih =>
    rw [Step.allocateNested]
    split
    · refine shows.step_check (shows.step_fault _) fun _ => ?_
      refine shows.step_bind (closed.step_repeated (ih _ first) _ _) fun elements _ => ?_
      exact closed.step_shown (fun _ => trivial)
        (closed.step_onMachine (closed.exec_allocateElements c elements))
    · exact shows.step_fault _

theorem step_storeElement (op : Opcode) (kind : ElementKind) :
    Shown OfStep anything (Step.storeElement op kind) := by
  have shows := closed.informed
  refine shows.step_bind (shows.step_onFrame _) fun value _ => ?_
  refine shows.step_bind (shows.step_onFrame _) fun index _ => ?_
  refine shows.step_bind shows.step_popObject fun ref _ => ?_
  refine shows.step_bind (shows.step_object ref) fun object _ => ?_
  refine shows.step_bind (shows.step_componentOf op kind object) fun component _ => ?_
  refine shows.step_bind (shows.step_checkKind op component value) fun _ _ => ?_
  refine shows.step_bind (shows.step_checkElement object value) fun _ _ => ?_
  split
  · exact closed.step_shown (fun _ => trivial) (closed.step_onMachine (closed.exec_setSlot _ _ _))
  · exact shows.step_indexOutOfBounds object index

/-- **Every instruction is put together from the simplest actions.** -/
theorem step_instruction : OfStep _ Step.instruction :=
  closed.step_of_shown (closed.informed.step_instruction closed.step_storeElement
    fun c _ => closed.step_allocateNested c)

end JavaMachine.Compositional
