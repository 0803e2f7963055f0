import JavaMachine.Proofs.Machine.Informed

/-! # Compositional properties of actions

A property of actions that all of the simplest ones have, and that a sequence has if its parts have
it, holds of everything that instructions and native methods do. Nothing need be known for it of what
actions give: an action that gives something known can be put together from the simplest ones in a
way that shows it (`Compositional.Shown`). -/

namespace JavaMachine

/-- Properties of the actions of a machine and of the parts of instructions that hold of the
simplest ones and of sequences. -/
structure Compositional (OfExec : ∀ α : Type, Exec α → Prop) (OfStep : ∀ α : Type, Step α → Prop) :
    Prop where
  exec_pure {α : Type} (value : α) : OfExec α (pure value)
  exec_bind {α β : Type} {action : Exec α} {next : α → Exec β} (first : OfExec α action)
    (rest : ∀ value, OfExec β (next value)) : OfExec β (action >>= next)
  exec_throw {α : Type} (interruption : Interruption) : OfExec α (throw interruption)
  exec_get : OfExec Machine get
  exec_load (name : String) : OfExec LinkedClass (Exec.load name)
  exec_invoke (owner : LinkedClass) (index : Nat) (arguments : List Value) :
    OfExec (Option Value) (Exec.invoke owner index arguments)
  exec_setStatic (c : LinkedClass) (slot : Nat) (value : Value) :
    OfExec Unit (Exec.setStatic c slot value)
  exec_allocate (object : HeapObject) : OfExec Ref (Exec.allocate object)
  exec_setSlot (ref : Ref) (slot : Nat) (value : Value) : OfExec Unit (Exec.setSlot ref slot value)
  exec_newString (text : String) : OfExec Ref (Exec.newString text)
  exec_intern (text : String) : OfExec Ref (Exec.intern text)
  exec_print (toErrors : Bool) (text : String) : OfExec Unit (Exec.print toErrors text)
  exec_readClock : OfExec Nat Native.SystemMethods.readClock
  exec_initializing (c : LinkedClass)
    (above : OfExec Unit (Exec.ensureInitialized.ofSuperclass c.superclass))
    (within : OfExec Unit (do
      Exec.assignConstants c c.staticFields
      Exec.runInitializer c)) :
    OfExec Unit (Exec.ensureInitialized c)
  step_pure {α : Type} (value : α) : OfStep α (pure value)
  step_bind {α β : Type} {action : Step α} {next : α → Step β} (first : OfStep α action)
    (rest : ∀ value, OfStep β (next value)) : OfStep β (action >>= next)
  step_throw {α : Type} (interruption : Interruption) : OfStep α (throw interruption)
  step_onMachine {α : Type} {action : Exec α} (inner : OfExec α action) :
    OfStep α (Step.onMachine action)
  step_onFrame {α : Type} (operation : FrameM α) [used : Frame.Used operation] :
    OfStep α (Step.onFrame operation)
  step_frame : OfStep Frame Step.frame
  step_cursor : OfStep Nat Step.cursor
  step_seek (cursor : Nat) : OfStep Unit (Step.seek cursor)
  step_arrayLimit : OfStep Nat (do return (← read).limits.arrayLength)
  step_setLink (index : UInt16) (link : Linkage) : OfStep Unit (Step.setLink index link)

namespace Compositional

/-! ## Showing what an action gives -/

/-- An action gives what it shows to have given, and with it has a property. -/
def Shown {m : Type → Type} [Monad m] (Of : ∀ α : Type, m α → Prop) {α : Type} (gives : α → Prop)
    (action : m α) : Prop :=
  ∃ showing : m { value // gives value }, Of _ showing ∧ action = Subtype.val <$> showing

section Shown

variable {m : Type → Type} [Monad m] [LawfulMonad m] {Of : ∀ α : Type, m α → Prop} {α β : Type}
  {gives : α → Prop} {wanted : β → Prop} {action : m α}

theorem Shown.holds (pure : ∀ {α : Type} (value : α), Of α (pure value))
    (bind : ∀ {α β : Type} {action : m α} {next : α → m β}, Of α action →
      (∀ value, Of β (next value)) → Of β (action >>= next))
    (shown : Shown Of gives action) : Of α action := by
  obtain ⟨showing, holds, rfl⟩ := shown
  rw [map_eq_pure_bind]
  exact bind holds fun _ => pure _

theorem shown_anything (pure : ∀ {α : Type} (value : α), Of α (pure value))
    (bind : ∀ {α β : Type} {action : m α} {next : α → m β}, Of α action →
      (∀ value, Of β (next value)) → Of β (action >>= next))
    (known : ∀ value, gives value) (holds : Of α action) : Shown Of gives action := by
  refine ⟨(fun value => ⟨value, known value⟩) <$> action, ?_, ?_⟩
  · rw [map_eq_pure_bind]
    exact bind holds fun _ => pure _
  · rw [Functor.map_map, id_map']

theorem Shown.bind {next : α → m β}
    (bind : ∀ {α β : Type} {action : m α} {next : α → m β}, Of α action →
      (∀ value, Of β (next value)) → Of β (action >>= next))
    (first : Shown Of gives action) (rest : ∀ value, gives value → Shown Of wanted (next value)) :
    Shown Of wanted (action >>= next) := by
  obtain ⟨showing, holds, rfl⟩ := first
  choose shows restHolds restEq using rest
  refine ⟨showing >>= fun value => shows value.1 value.2, ?_, ?_⟩
  · exact bind holds fun value => restHolds value.1 value.2
  · rw [bind_map_left, map_bind]
    exact bind_congr fun value => restEq value.1 value.2

end Shown

variable {OfExec : ∀ α : Type, Exec α → Prop} {OfStep : ∀ α : Type, Step α → Prop}
  (closed : Compositional OfExec OfStep)

include closed

theorem exec_shown {α : Type} {gives : α → Prop} {action : Exec α} (known : ∀ value, gives value)
    (holds : OfExec α action) : Shown OfExec gives action :=
  shown_anything closed.exec_pure closed.exec_bind known holds

theorem step_shown {α : Type} {gives : α → Prop} {action : Step α} (known : ∀ value, gives value)
    (holds : OfStep α action) : Shown OfStep gives action :=
  shown_anything closed.step_pure closed.step_bind known holds

theorem exec_of_shown {α : Type} {gives : α → Prop} {action : Exec α}
    (shown : Shown OfExec gives action) : OfExec α action :=
  shown.holds closed.exec_pure closed.exec_bind

theorem step_of_shown {α : Type} {gives : α → Prop} {action : Step α}
    (shown : Shown OfStep gives action) : OfStep α action :=
  shown.holds closed.step_pure closed.step_bind

theorem step_onMachine_shown {α : Type} {gives : α → Prop} {action : Exec α}
    (shown : Shown OfExec gives action) : Shown OfStep gives (Step.onMachine action) := by
  obtain ⟨showing, holds, rfl⟩ := shown
  refine ⟨Step.onMachine showing, closed.step_onMachine holds, ?_⟩
  funext services state
  simp only [Step.onMachine, map_eq_pure_bind, Bind.bind, ReaderT.bind, EStateM.bind]
  cases showing services state.machine <;> rfl

/-! ## What the rules for sequences need -/

theorem exec_object (ref : Ref) : OfExec _ (Exec.object ref) :=
  closed.exec_bind closed.exec_get fun _ => closed.exec_pure _

theorem exec_allocateZeros (c : LinkedClass) (length : Nat) :
    OfExec _ (Exec.allocateZeros c length) := by
  unfold Exec.allocateZeros
  split
  · exact closed.exec_throw _
  · exact closed.exec_allocate _

theorem exec_allocateElements (c : LinkedClass) (elements : Array Value) :
    OfExec _ (Exec.allocateElements c elements) := by
  unfold Exec.allocateElements
  split
  · exact closed.exec_throw _
  · exact closed.exec_allocate _

theorem exec_putField (ref : Ref) (slot : Nat) (value : Value) :
    OfExec _ (Exec.putField ref slot value) := by
  refine closed.exec_bind closed.exec_get fun machine => ?_
  split
  · exact closed.exec_setSlot ref slot value
  · exact closed.exec_bind (closed.exec_object ref) fun _ => closed.exec_throw _

theorem step_linkAt (index : UInt16) : OfStep _ (Step.linkAt index) := by
  refine closed.step_bind closed.step_frame fun frame => ?_
  have state : OfExec _ (Exec.classState frame.owner) :=
    closed.exec_bind closed.exec_get fun _ => closed.exec_pure _
  exact closed.step_bind (closed.step_onMachine state) fun _ => closed.step_pure _

theorem step_classNamed (index : UInt16) (name : String) :
    OfStep _ (Step.classNamed index name) := by
  refine closed.step_bind (closed.step_linkAt index) fun link => ?_
  split
  · exact closed.step_pure _
  · exact closed.step_bind (closed.step_onMachine (closed.exec_load name)) fun c =>
      closed.step_bind (closed.step_setLink index _) fun _ => closed.step_pure c

/-- A member is looked for only if the constant is not linked to one yet. -/
theorem step_linked (index : UInt16) (name : String) (find : LinkedClass → Except Error Linkage) :
    OfStep _ (Step.linked index name find) := by
  have search (c : LinkedClass) : OfExec _ (Exec.ofExcept (find c)) := by
    cases find c with
    | ok link => exact closed.exec_pure link
    | error error => exact closed.exec_throw (.fatal error)
  have found : OfStep _ (do
      let c ← Step.classNamed index name
      let link ← Exec.ofExcept (find c)
      Step.setLink index link
      return link : Step Linkage) :=
    closed.step_bind (closed.step_classNamed index name) fun c =>
      closed.step_bind (closed.step_onMachine (search c)) fun link =>
        closed.step_bind (closed.step_setLink index link) fun _ => closed.step_pure link
  refine closed.step_bind (closed.step_linkAt index) fun link => ?_
  split
  · exact found
  · exact found
  · exact closed.step_pure _

theorem step_constantAt (index : UInt16) : OfStep _ (Step.constantAt index) := by
  refine closed.step_bind closed.step_frame fun frame => ?_
  dsimp only
  split
  · exact closed.step_pure _
  · exact closed.step_onMachine (closed.exec_throw _)

theorem exec_assignConstants (c : LinkedClass) (fields : List Field) :
    OfExec _ (Exec.assignConstants c fields) := by
  induction fields with
  | nil => exact closed.exec_pure _
  | cons field rest ih =>
    rw [Exec.assignConstants]
    split
    · next constant _ =>
      have started : OfExec _ (Exec.constantValue constant) := by
        cases constant with
        | string text => exact closed.exec_bind (closed.exec_intern text) fun _ => closed.exec_pure _
        | int | long | float | double => exact closed.exec_pure _
      exact closed.exec_bind started fun value =>
        closed.exec_bind (closed.exec_setStatic c _ value) fun _ => ih
    · exact ih

theorem exec_runInitializer (c : LinkedClass) : OfExec _ (Exec.runInitializer c) := by
  unfold Exec.runInitializer
  split
  · exact closed.exec_pure _
  · exact closed.exec_bind (closed.exec_invoke c _ []) fun _ => closed.exec_pure _

/-- **A compositional property holds of what shows what it gives**, when nothing need be known. -/
theorem informed :
    Informed .nothing .nothing (fun gives action => Shown OfExec gives action)
      (fun gives action => Shown OfStep gives action) where
  exec_pure given := ⟨pure ⟨_, given⟩, closed.exec_pure _, rfl⟩
  exec_bind first rest := first.bind closed.exec_bind rest
  exec_throw interruption := ⟨throw interruption, closed.exec_throw _, rfl⟩
  exec_get := closed.exec_shown (fun _ => trivial) closed.exec_get
  exec_load name := closed.exec_shown (fun _ => trivial) (closed.exec_load name)
  exec_object ref := closed.exec_shown (fun _ => trivial) (closed.exec_object ref)
  exec_invoke _ _ := closed.exec_shown (fun _ => trivial) (closed.exec_invoke _ _ _)
  exec_setStatic _ _ _ := closed.exec_shown (fun _ => trivial) (closed.exec_setStatic _ _ _)
  exec_assignConstants _ :=
    closed.exec_shown (fun _ => trivial) (closed.exec_assignConstants _ _)
  exec_instantiate _ := closed.exec_shown (fun _ => trivial) (closed.exec_allocate _)
  exec_allocateZeros _ length :=
    closed.exec_shown (fun _ => trivial) (closed.exec_allocateZeros _ length)
  exec_putField ref slot value :=
    closed.exec_shown (fun _ => trivial) (closed.exec_putField ref slot value)
  exec_newString text := closed.exec_shown (fun _ => trivial) (closed.exec_newString text)
  exec_intern text := closed.exec_shown (fun _ => trivial) (closed.exec_intern text)
  exec_print toErrors text :=
    closed.exec_shown (fun _ => trivial) (closed.exec_print toErrors text)
  exec_readClock := closed.exec_shown (fun _ => trivial) closed.exec_readClock
  exec_initializing _ above := by
    refine closed.exec_shown (fun _ => trivial) (closed.exec_initializing _ ?_ ?_)
    · exact closed.exec_of_shown above
    · exact closed.exec_bind (closed.exec_assignConstants _ _) fun _ =>
        closed.exec_runInitializer _
  step_pure given := ⟨pure ⟨_, given⟩, closed.step_pure _, rfl⟩
  step_bind first rest := first.bind closed.step_bind rest
  step_throw interruption := ⟨throw interruption, closed.step_throw _, rfl⟩
  step_onMachine inner := closed.step_onMachine_shown inner
  step_onFrame operation :=
    closed.step_shown (fun _ => trivial) (closed.step_onFrame operation)
  step_frame := closed.step_shown (fun _ => trivial) closed.step_frame
  step_cursor := closed.step_shown (fun _ => trivial) closed.step_cursor
  step_seek cursor := closed.step_shown (fun _ => trivial) (closed.step_seek cursor)
  step_arrayLimit := closed.step_shown (fun _ => trivial) closed.step_arrayLimit
  step_constantAt index := closed.step_shown (fun _ => trivial) (closed.step_constantAt index)
  step_classNamed {index _ name} _ _ :=
    closed.step_shown (fun _ => trivial) (closed.step_classNamed index name)
  step_linked _ _ _ :=
    closed.step_shown (fun _ => trivial) (closed.step_linked _ _ _)

end Compositional

end JavaMachine
