import JavaMachine.Proofs.Machine.Compositional
import JavaMachine.Proofs.Native.Informed

/-! # Compositional properties of native methods

A property of actions that holds of the simplest ones and of sequences holds of the native methods
of all built-in classes, whatever they are called with. -/

namespace JavaMachine.Compositional

open Native.SystemMethods

variable {OfExec : ∀ α : Type, Exec α → Prop} {OfStep : ∀ α : Type, Step α → Prop}
  (closed : Compositional OfExec OfStep)

include closed

theorem system_storeAll (ref : Ref) (target : LinkedClass) (position : Nat)
    (values : List Value) : Shown OfExec anything (storeAll ref target position values) := by
  have shows := closed.informed
  induction values generalizing position with
  | nil => exact shows.exec_pure trivial
  | cons value rest ih =>
    have stored : Shown OfExec anything (Exec.setSlot ref position value) :=
      closed.exec_shown (fun _ => trivial) (closed.exec_setSlot ref position value)
    exact shows.exec_bind (shows.system_checkAssignable target value) fun _ _ =>
      shows.exec_bind stored fun _ _ => ih _

theorem system_copyElements (source target : Ref) (sourceStart targetStart count : Int) :
    Shown OfExec anything (copyElements source target sourceStart targetStart count) := by
  have shows := closed.informed
  refine shows.exec_bind (shows.exec_object source) fun sourceObject _ => ?_
  refine shows.exec_bind (shows.exec_object target) fun targetObject _ => ?_
  split
  · exact shows.exec_throwNew _ _
  · exact shows.exec_throwNew _ _
  · exact shows.exec_bind (shows.system_checkComponents _ _) fun _ _ =>
      shows.exec_bind (shows.system_checkRange _ _ _ _ _) fun _ _ =>
        closed.system_storeAll _ _ _ _

/-- **Every built-in native method is put together from the simplest actions.** -/
theorem native_table : OfTable OfExec Native.table := by
  intro entry member call
  have shows := closed.informed
  have assigning (system : LinkedClass) (name : String) (stream : Ref) :
      Shown OfExec anything (assignStream system name stream) := by
    unfold assignStream
    split
    · exact shows.exec_fail _
    · exact closed.exec_shown (fun _ => trivial) (closed.exec_setStatic _ _ _)
  have serves : Serving (fun _ _ => True) (fun _ action => Shown OfExec anything action)
      Native.table :=
    shows.native_table closed.system_copyElements fun _ _ name _ stream => assigning _ name stream
  exact closed.exec_of_shown (serves entry member call trivial)

end JavaMachine.Compositional
