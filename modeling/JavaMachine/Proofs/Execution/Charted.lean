import JavaMachine.Proofs.Execution.Course
import JavaMachine.Proofs.Host.Composed
import JavaMachine.Proofs.Instruction.Compositional

/-! # Everything that runs has a course

An action is charted if it has a course from every machine, inside whichever initializers it is
performed. The simplest actions are charted, and so is what is put together from charted ones: an
instruction, the handling of what it throws, a native method, and, by induction on the fuel, every
call. -/

namespace JavaMachine

open Exec

/-- An action that has a course wherever it is performed. -/
def Charted (setup : Setup) (fuel : Nat) {α : Type} (action : Exec α) : Prop :=
  ∀ enclosing machine, ∃ events, Course setup fuel enclosing action machine events

section Charted

variable {setup : Setup} {fuel : Nat} {α β : Type}

theorem charted_of_quiet {action : Exec α} (quiet : ∀ machine, Quiet setup action machine) :
    Charted setup fuel action :=
  fun _ machine => ⟨[], .quiet (quiet machine)⟩

theorem charted_pure (value : α) : Charted setup fuel (pure value : Exec α) :=
  charted_of_quiet fun _ => ⟨fun _ _ => rfl, fun _ => rfl⟩

theorem charted_throw (interruption : Interruption) :
    Charted setup fuel (throw interruption : Exec α) :=
  charted_of_quiet fun _ => ⟨fun _ _ => rfl, fun _ => rfl⟩

/-- An action whatever it is followed by: the course goes on from where the action ends. -/
theorem Charted.followed {action : Exec α} {next : α → Exec β} {handle : Interruption → Exec β}
    (first : Charted setup fuel action) (onValue : ∀ value, Charted setup fuel (next value))
    (onInterruption : ∀ interruption, Charted setup fuel (handle interruption)) :
    Charted setup fuel (followed action next handle) := by
  have rest (result : EStateM.Result Interruption Machine α) :
      Charted setup fuel (sequel next handle result) := by
    cases result with
    | ok value after => exact onValue value
    | error interruption after => exact onInterruption interruption
  intro enclosing machine
  obtain ⟨events, course⟩ := first enclosing machine
  obtain ⟨later, courseRest⟩ := rest _ enclosing _
  exact ⟨_, .followed course courseRest⟩

theorem Charted.bind {action : Exec α} {next : α → Exec β} (first : Charted setup fuel action)
    (rest : ∀ value, Charted setup fuel (next value)) : Charted setup fuel (action >>= next) := by
  rw [bind_eq_followed]
  exact first.followed rest charted_throw

theorem Charted.tryCatch {action : Exec α} {handle : Interruption → Exec α}
    (first : Charted setup fuel action)
    (rest : ∀ interruption, Charted setup fuel (handle interruption)) :
    Charted setup fuel (tryCatch action handle) := by
  rw [tryCatch_eq_followed]
  exact first.followed charted_pure rest

end Charted

/-! ## The actions of the machine -/

namespace Exec

variable {setup : Setup} {fuel : Nat}

theorem charted_get : Charted setup fuel (get : Exec Machine) :=
  charted_of_quiet fun _ => ⟨fun _ _ => rfl, fun _ => rfl⟩

/-- A change of the machine that leaves the states of classes alone. -/
theorem charted_modify {change : Machine → Machine}
    (kept : ∀ machine, (change machine).classes = machine.classes) :
    Charted setup fuel (modify change : Exec Unit) := by
  refine charted_of_quiet fun machine => ⟨fun _ _ => rfl, fun _ => ?_⟩
  change (change machine).phases = machine.phases
  unfold Machine.phases
  rw [kept]

theorem charted_load {name : String} : Charted setup fuel (load name) := by
  refine charted_of_quiet fun machine => ⟨fun _ _ => rfl, fun _ => ?_⟩
  unfold load
  split <;> rfl

/-- A change of the state of a class that leaves its phase alone. -/
theorem charted_modifyClass {c : LinkedClass} {change : ClassState → ClassState}
    (kept : ∀ state, (change state).phase = state.phase) :
    Charted setup fuel (modifyClass c change) := by
  refine charted_of_quiet fun machine => ⟨fun _ _ => rfl, fun _ => ?_⟩
  change (withClass c change machine).phases = machine.phases
  rw [phases_withClass, kept, phase_stateIn, Function.update_eq_self]

theorem charted_setStatic {c : LinkedClass} {slot : Nat} {value : Value} :
    Charted setup fuel (setStatic c slot value) := by
  have state : Charted setup fuel (classState c) :=
    charted_of_quiet fun _ => ⟨fun _ _ => rfl, fun _ => rfl⟩
  refine state.bind fun state => ?_
  split
  · exact charted_modifyClass fun _ => rfl
  · exact charted_throw _

theorem charted_allocate {object : HeapObject} : Charted setup fuel (allocate object) :=
  charted_of_quiet fun _ => ⟨fun _ _ => rfl, fun _ => rfl⟩

theorem charted_newString {text : String} : Charted setup fuel (newString text) :=
  charted_of_quiet fun _ => ⟨fun _ _ => rfl, fun _ => rfl⟩

theorem charted_intern {text : String} : Charted setup fuel (intern text) := by
  refine charted_get.bind fun machine => ?_
  split
  · exact charted_pure _
  · exact charted_newString.bind fun ref =>
      Charted.bind (charted_modify fun _ => rfl) fun _ => charted_pure ref

theorem charted_ensureInitialized {c : LinkedClass}
    (above : Charted setup fuel (ensureInitialized.ofSuperclass c.superclass))
    (within : Charted setup fuel (initializeSelf c)) :
    Charted setup fuel (ensureInitialized c) := by
  intro enclosing machine
  have settledAlready {result : EStateM.Result Interruption Machine Unit} (atOnce : ∀ services,
      ensureInitialized c services machine = result) (kept : endState result = machine) :
      ∃ events, Course setup fuel enclosing (ensureInitialized c) machine events := by
    refine ⟨[], .quiet ⟨fun _ _ => ?_, fun _ => ?_⟩⟩
    · rw [atOnce, atOnce]
    · rw [atOnce, kept]
  cases phase : machine.phases c.name with
  | done =>
    exact settledAlready (fun _ => ensureInitialized_of_begun (.inl phase)) rfl
  | running =>
    exact settledAlready (fun _ => ensureInitialized_of_begun (.inr phase)) rfl
  | failed =>
    exact settledAlready (fun _ => ensureInitialized_of_failed phase) rfl
  | untouched =>
    have exact : ensureInitialized c (setup.services fuel) machine = _ :=
      ensureInitialized_of_untouched phase
    obtain ⟨first, course⟩ := above (c.name :: enclosing) (withPhase c .running machine)
    cases reached : ensureInitialized.ofSuperclass c.superclass (setup.services fuel)
        (withPhase c .running machine) with
    | ok _ ready =>
      rw [Operation.bind_of_ok reached] at exact
      obtain ⟨later, rest⟩ := within (c.name :: enclosing) ready
      exact ⟨_, .initialized phase course reached rest exact⟩
    | error interruption after =>
      rw [Operation.bind_of_error reached] at exact
      exact ⟨_, .refused phase course reached exact⟩

end Exec

/-! ## The parts of instructions -/

namespace Step

/-- A part of an instruction as an action of the machine. It gives what the part ends with, the
frame and the cursor. -/
def detached {α : Type} (step : Step α) (frame : Frame) (cursor : Nat) :
    Exec (Except Interruption α × Frame × Nat) := fun services machine =>
  match step services ⟨machine, frame, cursor⟩ with
  | .ok value ⟨machine, frame, cursor⟩ => .ok (.ok value, frame, cursor) machine
  | .error interruption ⟨machine, frame, cursor⟩ => .ok (.error interruption, frame, cursor) machine

variable {setup : Setup} {fuel : Nat} {α β : Type} {frame : Frame} {cursor : Nat}

/-- How a part of an instruction goes on after an earlier one. -/
def rest (next : α → Step β) :
    Except Interruption α × Frame × Nat → Exec (Except Interruption β × Frame × Nat)
  | (.ok value, frame, cursor) => (next value).detached frame cursor
  | (.error interruption, frame, cursor) => pure (.error interruption, frame, cursor)

theorem detached_bind (step : Step α) (next : α → Step β) :
    (step >>= next).detached frame cursor = step.detached frame cursor >>= rest next := by
  funext services machine
  simp only [detached, Bind.bind, ReaderT.bind, EStateM.bind]
  cases step services ⟨machine, frame, cursor⟩ with
  | ok value state => rfl
  | error interruption state => rfl

theorem detached_onMachine (action : Exec α) :
    (onMachine action).detached frame cursor =
      followed action (fun value => pure (.ok value, frame, cursor))
        fun interruption => pure (.error interruption, frame, cursor) := by
  funext services machine
  simp only [detached, onMachine, followed]
  cases action services machine with
  | ok value after => rfl
  | error interruption after => rfl

theorem charted_bind {step : Step α} {next : α → Step β}
    (first : ∀ frame cursor, Charted setup fuel (step.detached frame cursor))
    (second : ∀ value frame cursor, Charted setup fuel ((next value).detached frame cursor)) :
    Charted setup fuel ((step >>= next).detached frame cursor) := by
  rw [detached_bind]
  refine (first frame cursor).bind fun reached => ?_
  obtain ⟨interruption | value, frame, cursor⟩ := reached
  · exact charted_pure _
  · exact second _ frame cursor

theorem charted_onMachine {action : Exec α} (inner : Charted setup fuel action) :
    Charted setup fuel ((onMachine action).detached frame cursor) := by
  rw [detached_onMachine]
  exact inner.followed (fun _ => charted_pure _) fun _ => charted_pure _

theorem charted_onFrame (operation : FrameM α) :
    Charted setup fuel ((onFrame operation).detached frame cursor) := by
  refine charted_of_quiet fun machine => ⟨fun _ _ => rfl, fun _ => ?_⟩
  simp only [detached, onFrame]
  cases operation frame <;> rfl

theorem charted_setLink {index : UInt16} {link : Linkage} :
    Charted setup fuel ((setLink index link).detached frame cursor) := by
  have linking : (setLink index link).detached frame cursor =
      (onMachine (Exec.modifyClass frame.owner fun state =>
        { state with links := (index, link) :: state.links })).detached frame cursor := rfl
  rw [linking]
  exact charted_onMachine (Exec.charted_modifyClass fun _ => rfl)

end Step

/-- The simplest actions are charted where calls are, and so is what is put together from them. -/
theorem charted_compositional {setup : Setup} {fuel : Nat}
    (calls : ∀ owner index arguments, Charted setup fuel (invoke owner index arguments)) :
    Compositional (fun _ action => Charted setup fuel action)
      (fun _ step => ∀ frame cursor, Charted setup fuel (step.detached frame cursor)) where
  exec_pure := charted_pure
  exec_bind := Charted.bind
  exec_throw := charted_throw
  exec_get := charted_get
  exec_load _ := charted_load
  exec_invoke := calls
  exec_setStatic _ _ _ := charted_setStatic
  exec_allocate _ := charted_allocate
  exec_setSlot _ _ _ := charted_modify fun _ => rfl
  exec_newString _ := charted_newString
  exec_intern _ := charted_intern
  exec_print toErrors _ := charted_modify fun _ => by cases toErrors <;> rfl
  exec_readClock := charted_of_quiet fun _ => ⟨fun _ _ => rfl, fun _ => rfl⟩
  exec_initializing _ := charted_ensureInitialized
  step_pure _ _ _ := charted_pure _
  step_bind first rest _ _ := Step.charted_bind first rest
  step_throw _ _ _ := charted_pure _
  step_onMachine inner _ _ := Step.charted_onMachine inner
  step_onFrame operation _ _ _ := Step.charted_onFrame operation
  step_frame _ _ := charted_of_quiet fun _ => ⟨fun _ _ => rfl, fun _ => rfl⟩
  step_cursor _ _ := charted_of_quiet fun _ => ⟨fun _ _ => rfl, fun _ => rfl⟩
  step_seek _ _ _ := charted_of_quiet fun _ => ⟨fun _ _ => rfl, fun _ => rfl⟩
  step_arrayLimit _ _ := charted_of_quiet fun _ => ⟨fun _ _ => rfl, fun _ => rfl⟩
  step_setLink _ _ _ _ := Step.charted_setLink

theorem charted_catching {setup : Setup} {fuel : Nat}
    (calls : ∀ owner index arguments, Charted setup fuel (invoke owner index arguments)) :
    Catching (fun _ action => Charted setup fuel action)
      (fun _ step => ∀ frame cursor, Charted setup fuel (step.detached frame cursor)) where
  toCompositional := charted_compositional calls
  exec_tryCatch := Charted.tryCatch

/-! ## Execution -/

namespace Execution

variable {setup : Setup} {fuel : Nat}

theorem charted_onFrame {operation : FrameM Unit} {frame : Frame} :
    Charted setup fuel (onFrame operation frame) := by
  unfold onFrame
  split
  · exact charted_pure _
  · exact charted_throw _

theorem charted_enter : Charted setup fuel enter := by
  have limit : Charted setup fuel (do return (← read).limits.callDepth : Exec Nat) :=
    charted_of_quiet fun _ => ⟨fun _ _ => rfl, fun _ => rfl⟩
  have entering : Charted setup fuel (do
      let limit ← (do return (← read).limits.callDepth : Exec Nat)
      if (← get).depth ≥ limit then
        fail (.virtualMachine (.callDepth limit))
      modify fun machine => { machine with depth := machine.depth + 1 } : Exec Unit) := by
    refine limit.bind fun limit => charted_get.bind fun machine => ?_
    have count : Charted setup fuel
        (modify fun machine => { machine with depth := machine.depth + 1 } : Exec Unit) :=
      charted_modify fun _ => rfl
    dsimp only
    split
    · exact Charted.bind (charted_throw _) fun _ => count
    · exact count
  exact entering

theorem charted_leave : Charted setup fuel leave :=
  charted_modify fun _ => rfl

/-- Deals with what is thrown; any other interruption goes on. -/
def onThrown {α : Type} (handle : Ref → Exec α) : Interruption → Exec α
  | .thrown exception => handle exception
  | .fatal error => throw (.fatal error)
  | .outOfFuel => throw .outOfFuel

theorem charted_onThrown {α : Type} {handle : Ref → Exec α}
    (handled : ∀ exception, Charted setup fuel (handle exception)) (interruption : Interruption) :
    Charted setup fuel (onThrown handle interruption) := by
  cases interruption with
  | thrown exception => exact handled exception
  | fatal | outOfFuel => exact charted_throw _

theorem charted_findHandler {pc : Nat} {thrown : LinkedClass} {handlers : List Handler} :
    Charted setup fuel (findHandler pc thrown handlers) := by
  induction handlers with
  | nil => exact charted_pure _
  | cons handler rest ih =>
    rw [findHandler]
    split
    · exact ih
    · split
      · exact charted_pure _
      · refine charted_load.bind fun caught => ?_
        split
        · exact charted_pure _
        · exact ih

theorem charted_unwind {exception : Ref} {frame : Frame} {callers : List Frame} :
    Charted setup fuel (unwind exception frame callers) := by
  induction callers generalizing frame with
  | nil =>
    rw [unwind]
    refine Charted.bind (charted_get.bind fun _ => charted_pure _) fun object => ?_
    refine charted_findHandler.bind fun handler => ?_
    split
    · exact charted_onFrame.bind fun _ => charted_pure _
    · exact charted_leave.bind fun _ => charted_throw _
  | cons caller rest ih =>
    rw [unwind]
    refine Charted.bind (charted_get.bind fun _ => charted_pure _) fun object => ?_
    refine charted_findHandler.bind fun handler => ?_
    split
    · exact charted_onFrame.bind fun _ => charted_pure _
    · exact charted_leave.bind fun _ => ih

/-- What follows a call of a method without code: the frame that called it goes on, or handles what
was thrown. -/
theorem callBodiless_eq (owner : LinkedClass) (index : Nat) (arguments : List Value)
    (frame : Frame) (callers : List Frame) :
    callBodiless owner index arguments frame callers =
      followed (Exec.invoke owner index arguments)
        (fun result => do return ⟨← onFrame (Frame.resume result) frame, callers⟩)
        (onThrown (unwind · frame callers)) := by
  funext services machine
  simp only [callBodiless, followed, Exec.invoke]
  cases services.invoke owner index arguments machine with
  | ok result after => rfl
  | error interruption after => cases interruption <;> rfl

/-- How a chain goes on after its innermost frame has executed an instruction. -/
def afterInstruction (callers : List Frame) : Except Interruption Next × Frame × Nat → Exec Progress
  | (.ok .proceed, frame, cursor) => return .running ⟨{ frame with pc := cursor }, callers⟩
  | (.ok (.call owner index arguments), frame, cursor) => do
    return .running (← call owner index arguments { frame with resumePc := cursor } callers)
  | (.ok (.finish result), _, _) => finish result callers
  | (.error interruption, frame, _) =>
    onThrown (fun exception => do return .running (← unwind exception frame callers)) interruption

theorem advance_eq (frame : Frame) (callers : List Frame) :
    advance ⟨frame, callers⟩ =
      Step.instruction.detached frame frame.pc >>= afterInstruction callers := by
  funext services machine
  simp only [advance, Step.detached, Bind.bind, ReaderT.bind, EStateM.bind]
  cases Step.instruction services ⟨machine, frame, frame.pc⟩ with
  | ok next after => cases next <;> rfl
  | error interruption after => cases interruption <;> rfl

theorem settling_eq {α : Type} (action : Exec α) (settle : Machine → Machine) :
    settling action settle =
      followed action (fun result => do modify settle; return result)
        (fun interruption => do modify settle; throw interruption) := by
  funext services machine
  simp only [settling, followed]
  cases action services machine <;> rfl

theorem charted_settling {α : Type} {action : Exec α} {settle : Machine → Machine}
    (inner : Charted setup fuel action)
    (kept : ∀ machine, (settle machine).classes = machine.classes) :
    Charted setup fuel (settling action settle) := by
  rw [settling_eq]
  exact inner.followed (fun _ => (charted_modify kept).bind fun _ => charted_pure _)
    fun _ => (charted_modify kept).bind fun _ => charted_throw _

theorem charted_ofExcept {α : Type} {value : Except Error α} :
    Charted setup fuel (ofExcept value) := by
  cases value with
  | ok value => exact charted_pure value
  | error error => exact charted_throw _

theorem charted_finish {result : Option Value} {callers : List Frame} :
    Charted setup fuel (finish result callers) := by
  refine charted_leave.bind fun _ => ?_
  cases callers with
  | nil => exact charted_pure _
  | cons caller rest => exact charted_onFrame.bind fun _ => charted_pure _

/-! ## Calls -/

section Calls

variable (calls : ∀ owner index arguments,
  Charted setup fuel (Exec.invoke owner index arguments))

include calls

theorem charted_callBodiless {owner : LinkedClass} {index : Nat} {arguments : List Value}
    {frame : Frame} {callers : List Frame} :
    Charted setup fuel (callBodiless owner index arguments frame callers) := by
  rw [callBodiless_eq]
  exact (calls owner index arguments).followed
    (fun _ => charted_onFrame.bind fun _ => charted_pure _)
    (charted_onThrown fun _ => charted_unwind)

theorem charted_call {owner : LinkedClass} {index : Nat} {arguments : List Value}
    {frame : Frame} {callers : List Frame} :
    Charted setup fuel (call owner index arguments frame callers) := by
  unfold call
  split
  · exact charted_throw _
  · split
    · exact charted_callBodiless calls
    · exact charted_enter.bind fun _ => charted_ofExcept.bind fun _ => charted_pure _

theorem charted_advance (chain : Chain) : Charted setup fuel (advance chain) := by
  obtain ⟨frame, callers⟩ := chain
  rw [advance_eq]
  refine Charted.bind ((charted_compositional calls).step_instruction frame frame.pc) ?_
  rintro ⟨interruption | next, frame, cursor⟩
  · exact charted_onThrown (fun _ => charted_unwind.bind fun _ => charted_pure _) _
  · cases next with
    | proceed => exact charted_pure _
    | call owner index arguments => exact (charted_call calls).bind fun _ => charted_pure _
    | finish result => exact charted_finish

theorem charted_run (steps : Nat) (chain : Chain) : Charted setup fuel (run steps chain) := by
  induction steps generalizing chain with
  | zero => exact charted_throw _
  | succ steps ih =>
    rw [run]
    refine (charted_advance calls chain).bind fun progress => ?_
    cases progress with
    | running chain => exact ih chain
    | finished result => exact charted_pure _

omit calls in
theorem charted_runNative
    (natives : Compositional.OfTable (fun _ action => Charted setup fuel action) setup.natives)
    {owner : LinkedClass} {method : Method} {arguments : List Value} :
    Charted setup fuel (runNative setup.natives owner method arguments) := by
  refine charted_enter.bind fun _ => charted_settling ?_ fun _ => rfl
  cases found : setup.natives.lookup ⟨owner.name, method.name, method.descriptorText⟩ with
  | none => exact charted_throw _
  | some function =>
    obtain ⟨before, after, table, -⟩ := List.lookup_eq_some_iff.mp found
    have member : (⟨owner.name, method.name, method.descriptorText⟩, function) ∈ setup.natives := by
      rw [table]
      exact List.mem_append_right before (List.mem_cons_self ..)
    exact natives _ member _

theorem charted_runCode {owner : LinkedClass} {index : Nat} {arguments : List Value} :
    Charted setup fuel (runCode (run fuel) owner index arguments) := by
  refine charted_ofExcept.bind fun frame => charted_get.bind fun machine => ?_
  exact charted_settling (charted_enter.bind fun _ => charted_run calls fuel _) fun _ => rfl

theorem charted_invoke
    (natives : Compositional.OfTable (fun _ action => Charted setup fuel action) setup.natives)
    (owner : LinkedClass) (index : Nat) (arguments : List Value) :
    Charted setup fuel (invoke setup.natives (run fuel) owner index arguments) := by
  unfold invoke
  split
  · exact charted_throw _
  · split
    · exact charted_throw _
    · split
      · exact charted_runNative natives
      · exact charted_runCode calls

end Calls

/-- **Every call has a course, however many steps it may take**, if every native method has one
where calls have. -/
theorem charted_calls
    (natives : ∀ fuel, (∀ owner index arguments,
      Charted setup fuel (Exec.invoke owner index arguments)) →
      Compositional.OfTable (fun _ action => Charted setup fuel action) setup.natives) :
    ∀ fuel owner index arguments,
      Charted setup fuel (Exec.invoke owner index arguments) := by
  intro fuel
  induction fuel with
  | zero => exact fun _ _ _ _ _ => ⟨[], .exhausted⟩
  | succ fuel ih =>
    intro owner index arguments enclosing machine
    obtain ⟨events, course⟩ :=
      charted_invoke ih (natives fuel ih) owner index arguments enclosing machine
    exact ⟨events, .called course⟩

end Execution

end JavaMachine
