import JavaMachine.Proofs.Execution.Equivalence
import JavaMachine.Proofs.Execution.Watched
import JavaMachine.Proofs.Host.Composed

/-! # The count of calls

A machine counts the calls in progress: the frames of all chains and the native methods that have
not ended. The count changes where a call begins, where a frame or a native method ends and where a
throwable ends frames, and is set right where the call of a method with code ends. Between these
places nothing changes it, so that it is right at every moment of a run (`Setup.CountsCalls`).

A call whose frame cannot be made is counted for a moment without being in progress; the error of the
machine that this is then ends all calls up to one that sets the count right, with nothing in between
that could be looked at. -/

namespace JavaMachine

open Execution (leave unwind finish findHandler)

namespace Regime

/-- The regime that asks for nothing: only the calls in progress are counted. -/
def counting : Regime where
  good _ := True
  kept _ _ := True
  known := .nothing
  kept_refl _ := trivial
  kept_trans _ _ := trivial
  good_depth _ _ := trivial
  kept_depth _ _ := trivial

variable {setup : Setup} {α : Type}

/-- What makes no calls follows if it leaves the count alone. -/
theorem counting_of_depth {action : Exec α}
    (callFree : ∀ invoke invoke' machine,
      action (setup.withInvoker invoke') machine = action (setup.withInvoker invoke) machine)
    (depth : ∀ services machine, (endState (action services machine)).depth = machine.depth) :
    counting.Follows setup anything action :=
  follows_of_callFree callFree fun _ machine _ =>
    ⟨trivial, depth _ machine, trivial, fun _ _ _ => trivial⟩

theorem counting_load (name : String) : counting.Follows setup anything (Exec.load name) := by
  refine counting_of_depth (fun _ _ _ => rfl) fun services machine => ?_
  unfold Exec.load
  split <;> rfl

theorem counting_modifyClass (c : LinkedClass) (change : ClassState → ClassState) :
    counting.Follows setup anything (Exec.modifyClass c change) :=
  counting_of_depth (fun _ _ _ => rfl) fun _ _ => rfl

theorem counting_setStatic (c : LinkedClass) (slot : Nat) (value : Value) :
    counting.Follows setup anything (Exec.setStatic c slot value) := by
  refine (follows_classState c).bind fun state _ => ?_
  split
  · exact counting_modifyClass c _
  · exact follows_throw _

theorem counting_newString (text : String) :
    counting.Follows setup anything (Exec.newString text) :=
  counting_of_depth (fun _ _ _ => rfl) fun _ _ => rfl

theorem counting_intern (text : String) : counting.Follows setup anything (Exec.intern text) := by
  refine follows_get.bind fun machine _ => ?_
  split
  · exact follows_pure trivial
  · refine (counting_newString text).bind fun ref _ => ?_
    have noted : counting.Follows setup anything
        (modify fun machine : Machine => { machine with interned := (text, ref) :: machine.interned } :
          Exec Unit) :=
      counting_of_depth (fun _ _ _ => rfl) fun _ _ => rfl
    exact noted.bind fun _ _ => follows_pure trivial

theorem counting_print (toErrors : Bool) (text : String) :
    counting.Follows setup anything (Exec.print toErrors text) := by
  refine counting_of_depth (fun _ _ _ => rfl) fun _ machine => ?_
  cases toErrors <;> rfl

/-- Whatever is put together from the simplest actions leaves the count alone. -/
theorem counting_catching (setup : Setup) :
    Catching (fun _ action => counting.Follows setup anything action)
      (fun _ action => counting.Follows setup anything action) where
  exec_pure _ := follows_pure trivial
  exec_bind first rest := first.bind fun value _ => rest value
  exec_throw := follows_throw
  exec_get := follows_get
  exec_load := counting_load
  exec_invoke _ _ arguments := follows_invoke trivial arguments
  exec_setStatic := counting_setStatic
  exec_allocate _ := counting_of_depth (fun _ _ _ => rfl) fun _ _ => rfl
  exec_setSlot _ _ _ := counting_of_depth (fun _ _ _ => rfl) fun _ _ => rfl
  exec_newString := counting_newString
  exec_intern := counting_intern
  exec_print := counting_print
  exec_readClock := counting_of_depth (fun _ _ _ => rfl) fun _ _ => rfl
  exec_initializing c := follows_initializing fun _ => counting_modifyClass c _
  exec_tryCatch first rest := first.tryCatch rest
  step_pure _ := follows_pure trivial
  step_bind first rest := first.bind fun value _ => rest value
  step_throw := follows_throw
  step_onMachine := follows_onMachine
  step_onFrame operation := follows_onFrame operation
  step_frame := follows_frame
  step_cursor := follows_cursor
  step_seek := follows_seek
  step_arrayLimit := follows_arrayLimit
  step_setLink _ _ := follows_frame.bind fun _ _ => follows_onMachine (counting_modifyClass _ _)

theorem counting_instruction (setup : Setup) :
    counting.Follows setup Knowledge.nothing.Next Step.instruction := by
  refine (counting_catching setup).toCompositional.step_instruction.weaken fun next _ => ?_
  cases next <;> trivial

/-- It governs every setup whose native methods are put together from them. -/
theorem counting_governs
    (composed : Compositional.OfTable (fun _ action => action.Composed) setup.natives) :
    counting.Governs setup where
  load invoke name machine _ := by
    have depth : (endState (Exec.load name (setup.withInvoker invoke) machine)).depth =
        machine.depth := by
      unfold Exec.load
      split <;> rfl
    exact ⟨trivial, depth, trivial, fun _ _ _ => trivial⟩
  instruction := (counting_instruction setup).leads.weaken (fun _ _ => trivial) fun _ _ => id
  natives entry member call _ := composed entry member call _ _ (counting_catching setup)

end Regime

/-! ## Calls that end -/

namespace Execution

/-- What is left of the frames of a chain, and of the calls that were counted for them, when a
throwable has been offered to them: a frame that does not handle it ends, with exactly one call. -/
inductive Unwound (callers : Nat) (before : Machine) :
    EStateM.Result Interruption Machine Chain → Prop where
  | caught {chain : Chain} {after : Machine} (gone : Nat)
      (frames : chain.callers.length + gone = callers) (depth : after.depth + gone = before.depth) :
      Unwound callers before (.ok chain after)
  | uncaught {exception : Ref} {after : Machine}
      (depth : after.depth + (callers + 1) = before.depth) :
      Unwound callers before (.error (.thrown exception) after)
  | failed {error : Error} {after : Machine} (gone : Nat) (within : gone ≤ callers)
      (depth : after.depth + gone = before.depth) :
      Unwound callers before (.error (.fatal error) after)

/-- One more frame ends. -/
theorem Unwound.after {callers : Nat} {before between : Machine}
    {result : EStateM.Result Interruption Machine Chain} (unwound : Unwound callers between result)
    (counted : between.depth + 1 = before.depth) : Unwound (callers + 1) before result := by
  cases unwound with
  | caught gone frames depth => exact .caught (gone + 1) (by omega) (by omega)
  | uncaught depth => exact .uncaught (by omega)
  | failed gone within depth => exact .failed (gone + 1) (by omega) (by omega)

/-- The search for a handler ends with an error of the machine at worst, and leaves the count
alone. -/
theorem findHandler_depth (pc : Nat) (thrown : LinkedClass) (handlers : List Handler)
    (services : Services) (machine : Machine) :
    (∃ target after, findHandler pc thrown handlers services machine = .ok target after ∧
      after.depth = machine.depth) ∨
    ∃ error after, findHandler pc thrown handlers services machine = .error (.fatal error) after ∧
      after.depth = machine.depth := by
  induction handlers generalizing machine with
  | nil => exact .inl ⟨none, machine, rfl, rfl⟩
  | cons handler rest ih =>
    rw [findHandler]
    split
    · exact ih machine
    cases handler.catchType with
    | none => exact .inl ⟨_, machine, rfl, rfl⟩
    | some name =>
      simp only [Bind.bind, ReaderT.bind, EStateM.bind, Exec.load]
      cases Loader.load services.sources name machine.loaded with
      | error error loaded => exact .inr ⟨error, { machine with loaded }, rfl, rfl⟩
      | ok caught loaded =>
        dsimp only
        split
        · exact .inl ⟨_, { machine with loaded }, rfl, rfl⟩
        · exact ih { machine with loaded }

/-- A frame to which a throwable is offered keeps its call or gives back exactly one. -/
theorem offering_unwound (exception : Ref) (frame : Frame) (callers : List Frame)
    {ended : Exec Chain} (services : Services) (machine : Machine) (counted : 0 < machine.depth)
    (rest : ∀ after, after.depth + 1 = machine.depth →
      Unwound callers.length machine (ended services after)) :
    Unwound callers.length machine
      (Chain.offering exception frame (fun frame => return ⟨frame, callers⟩) ended services
        machine) := by
  have object : Exec.object exception services machine = .ok (machine.heap.get exception) machine :=
    rfl
  unfold Chain.offering
  rw [Operation.bind_of_ok object]
  rcases findHandler_depth frame.pc (machine.heap.get exception).type frame.code.handlers services
    machine with ⟨target, after, found, depth⟩ | ⟨error, after, failed, depth⟩
  · rw [Operation.bind_of_ok found]
    cases target with
    | some target =>
      simp only [Bind.bind, ReaderT.bind, EStateM.bind, onFrame]
      cases Frame.catchAt target exception frame with
      | ok value caught => exact .caught 0 rfl depth
      | error error caught => exact .failed 0 (Nat.zero_le _) depth
    | none =>
      refine rest { after with depth := after.depth - 1 } ?_
      rw [← depth] at counted ⊢
      exact Nat.sub_add_cancel counted
  · simp only [Bind.bind, ReaderT.bind, EStateM.bind, failed]
    exact .failed 0 (Nat.zero_le _) depth

/-- **No frame that a throwable ends is counted off twice or not at all.** -/
theorem unwind_unwound (exception : Ref) (frame : Frame) (callers : List Frame)
    (services : Services) (machine : Machine) (counted : callers.length < machine.depth) :
    Unwound callers.length machine (unwind exception frame callers services machine) := by
  induction callers generalizing frame machine with
  | nil =>
    rw [Chain.unwind_nil]
    exact offering_unwound exception frame [] services machine counted fun after depth =>
      .uncaught depth
  | cons caller rest ih =>
    rw [Chain.unwind_cons]
    refine offering_unwound exception frame (caller :: rest) services machine
      (Nat.zero_lt_of_lt counted) fun after depth => ?_
    rw [List.length_cons] at counted ⊢
    exact (ih caller after (by omega)).after depth

/-- A frame that ends with a result gives back exactly one call, whether or not its caller can take
the result. -/
theorem finish_depth (result : Option Value) (callers : List Frame) (services : Services)
    (machine : Machine) (counted : 0 < machine.depth) :
    (endState (finish result callers services machine)).depth + 1 = machine.depth := by
  cases callers with
  | nil => exact Nat.sub_add_cancel counted
  | cons caller rest =>
    simp only [finish, leave, modify, modifyGet, MonadStateOf.modifyGet, Bind.bind, ReaderT.bind,
      EStateM.bind, monadLift, MonadLift.monadLift, EStateM.modifyGet, onFrame]
    cases Frame.resume result caller <;> exact Nat.sub_add_cancel counted

end Execution

/-! ## The count is right -/

namespace Setup

variable {setup : Setup} {α : Type}

/-- The count of calls is right throughout the runs of a setup. -/
structure CountsCalls (setup : Setup) : Prop where
  /-- At every moment of a run that begins outside of all calls, as many calls are counted as are
  in progress, and no more than are allowed: it makes no difference to have the run stopped at all
  others. -/
  moments {α : Type} (action : Exec α) (composed : action.Composed) (watcher : Watcher)
    (elsewhere : ∀ live machine, watcher live machine = true →
      ¬ (machine.depth = live.length ∧ machine.depth ≤ setup.limits.callDepth))
    (fuel : Nat) (machine : Machine) (outside : machine.depth = 0) :
    action (setup.watched watcher fuel []) machine = action (setup.services fuel) machine
  /-- However an action ends, as many calls are counted as where it began; a call is an action. -/
  returns {α : Type} (action : Exec α) (composed : action.Composed) (fuel : Nat)
    (machine : Machine) :
    (endState (action (setup.services fuel) machine)).depth = machine.depth
  /-- So it is for an instruction, whatever it calls or initializes. -/
  instructions (fuel : Nat) (state : StepState) :
    (endState (Step.instruction (setup.services fuel) state)).machine.depth = state.machine.depth
  /-- Where all frames of a chain are counted, a throwable takes off no more than there is. -/
  unwinds (fuel : Nat) (exception : Ref) (frame : Frame) (callers : List Frame) (machine : Machine)
    (counted : callers.length < machine.depth) :
    Execution.Unwound callers.length machine
      (unwind exception frame callers (setup.services fuel) machine)
  /-- Nor does a frame that ends with a result. -/
  finishes (fuel : Nat) (result : Option Value) (callers : List Frame) (machine : Machine)
    (counted : 0 < machine.depth) :
    (endState (finish result callers (setup.services fuel) machine)).depth + 1 = machine.depth
  /-- Nor does a native method, which ends with its own call in progress. -/
  natives (entry : NativeKey × NativeFunction) (member : entry ∈ setup.natives) (call : NativeCall)
    (fuel : Nat) (machine : Machine) :
    (endState (entry.2 call (setup.services fuel) { machine with depth := machine.depth + 1 })).depth =
      machine.depth + 1

/-- A machine with no more calls in progress than are allowed, as if all of them were native. -/
theorem exists_regular {machine : Machine} (within : machine.depth ≤ setup.limits.callDepth) :
    ∃ live, Regime.counting.Regular setup live machine := by
  refine ⟨List.replicate machine.depth (.native default default), trivial, ?_, ?_, ?_⟩
  · rw [List.length_replicate]
  · rw [List.length_replicate]
    exact within
  · intro frame member
    cases List.eq_of_mem_replicate member

/-- A call of a method with code has its count set right at its end. -/
theorem runCode_depth (run : Chain → Exec (Option Value)) (owner : LinkedClass) (index : Nat)
    (arguments : List Value) (services : Services) (machine : Machine) :
    (endState (Execution.runCode run owner index arguments services machine)).depth =
      machine.depth := by
  unfold Execution.runCode
  cases Frame.enter owner index arguments with
  | error error => rfl
  | ok callee =>
    change (endState (Execution.settling (do Execution.enter; run ⟨callee, []⟩)
      (fun after => { after with depth := machine.depth }) services machine)).depth = machine.depth
    unfold Execution.settling
    split <;> rfl

/-- Where too many calls are in progress none begins. -/
theorem invoke_depth_of_deep (fuel : Nat) (owner : LinkedClass) (index : Nat)
    (arguments : List Value) {machine : Machine}
    (deep : setup.limits.callDepth ≤ machine.depth) :
    (endState ((setup.services fuel).invoke owner index arguments machine)).depth =
      machine.depth := by
  cases fuel with
  | zero => rfl
  | succ fuel =>
    have limits : (setup.services fuel).limits = setup.limits := by
      cases fuel <;> rfl
    change (endState (Execution.invoke setup.natives (Execution.run fuel) owner index arguments
      (setup.services fuel) machine)).depth = machine.depth
    unfold Execution.invoke
    cases owner.method? index with
    | none => rfl
    | some method =>
      dsimp only
      split
      · rfl
      split
      · have never : Execution.enter (setup.services fuel) machine =
            .error (.fatal (.virtualMachine (.callDepth setup.limits.callDepth))) machine := by
          rw [enter_eq, limits, if_pos deep]
        simp only [Execution.runNative, Bind.bind, ReaderT.bind, EStateM.bind, never, endState]
      · exact runCode_depth _ owner index arguments _ machine

section Composed

variable (composed : Compositional.OfTable (fun _ action => action.Composed) setup.natives)

include composed

theorem invoke_depth (fuel : Nat) (owner : LinkedClass) (index : Nat) (arguments : List Value)
    (machine : Machine) :
    (endState ((setup.services fuel).invoke owner index arguments machine)).depth =
      machine.depth := by
  rcases Nat.le_total machine.depth setup.limits.callDepth with within | deep
  · obtain ⟨live, regular⟩ := exists_regular within
    have trusts : Regime.counting.Trusts setup fun _ _ => false := fun _ _ => nofun
    have twins := (Regime.counting_governs composed).twins trusts fuel regular
    have ends := twins.ends owner index arguments machine trivial trivial regular.depth
    exact ends.depth.trans regular.depth.symm
  · exact invoke_depth_of_deep fuel owner index arguments deep

/-- What follows the regime of counting ends with as many calls as it began with. -/
theorem depth_of_follows {σ : Type} [MachineState σ] {gives : α → Prop} {operation : Operation σ α}
    (follows : Regime.counting.Follows setup gives operation) (fuel : Nat) (state : σ) :
    (MachineState.machine (endState (operation (setup.services fuel) state))).depth =
      (MachineState.machine state).depth := by
  have twins : Regime.counting.Twins (MachineState.machine state).depth
      (setup.services fuel).invoke (setup.services fuel).invoke :=
    ⟨fun _ _ _ _ _ _ _ => rfl, fun owner index arguments machine _ _ depth =>
      ⟨trivial, depth ▸ invoke_depth composed fuel owner index arguments machine, trivial,
        fun _ _ _ => trivial⟩⟩
  have ends := (follows _ _ _ twins state trivial rfl).2
  rw [withInvoker_services] at ends
  exact ends.depth

theorem countsCalls_of_composed : setup.CountsCalls := by
  have governs := Regime.counting_governs composed
  have follows {α : Type} {action : Exec α} (composed : action.Composed) :
      Regime.counting.Follows setup anything action :=
    composed _ _ (Regime.counting_catching setup)
  exact {
    moments := by
      intro α action composed' watcher elsewhere fuel machine outside
      have trusts : Regime.counting.Trusts setup watcher := by
        intro live machine stops regular
        exact elsewhere live machine stops ⟨regular.depth, regular.depth ▸ regular.limit⟩
      have regular : Regime.counting.Regular setup [] machine :=
        ⟨trivial, outside, Nat.zero_le _, nofun⟩
      exact (governs.watched_eq trusts (follows composed') fuel regular).1
    returns := fun action composed' fuel machine =>
      depth_of_follows composed (follows composed') fuel machine
    instructions := fun fuel state => depth_of_follows composed (Regime.counting_instruction setup) fuel state
    unwinds := fun fuel exception frame callers machine counted =>
      Execution.unwind_unwound exception frame callers _ machine counted
    finishes := fun fuel result callers machine counted =>
      Execution.finish_depth result callers _ machine counted
    natives := fun entry member call fuel machine =>
      depth_of_follows composed (follows (composed entry member call)) fuel
        { machine with depth := machine.depth + 1 } }

end Composed

/-- **The count of calls is right**, whatever the classes, the limits and the native methods of the
host, which are put together from the actions of the machine. -/
theorem countsCalls {host : NativeTable} (natives : setup.natives = host ++ Native.table)
    (composed : Compositional.OfTable (fun _ action => action.Composed) host) :
    setup.CountsCalls := by
  have builtin : Compositional.OfTable (fun _ action => action.Composed) Native.table :=
    fun entry member call _ _ closed => closed.native_table entry member call
  refine countsCalls_of_composed ?_
  rw [natives]
  exact Compositional.ofTable_append.mpr ⟨composed, builtin⟩

end Setup

/-! ## A method that calls itself -/

/-- A class with a native method and a method that calls it and then itself. -/
def echoClass : LinkedClass :=
  let nothing : MethodDescriptor := ⟨[], none⟩
  let methods := #[
    ⟨⟨0x0009⟩, "echo", "()V", nothing, some ⟨0, 0, #[0xb8, 0, 1, 0xb8, 0, 2, 0xb1], []⟩⟩,
    ⟨⟨0x0109⟩, "greet", "()V", nothing, none⟩]
  let pool := #[.methodref ⟨"Echo", "greet", "()V", nothing⟩,
    .methodref ⟨"Echo", "echo", "()V", nothing⟩]
  .mk ⟨"Echo", ⟨0x0001⟩, pool, [], [], methods, none, none⟩ none [] none
    (MethodTable.build methods none [])

def echoSetup : Setup where
  sources := []
  limits := { callDepth := 2 }
  stringClass := default
  natives := [(⟨"Echo", "greet", "()V"⟩, greet)] ++ Native.table

def echoMachine : Machine := { loaded := [("Echo", echoClass)] }

/-- What interrupted an action. -/
def interruption? {α : Type} : EStateM.Result Interruption Machine α → Option Interruption
  | .ok .. => none
  | .error interruption _ => some interruption

/-- It calls itself until too many calls are in progress, the last time for the native method, and
none of them is counted any more. -/
theorem countsCalls_echo :
    interruption? ((echoSetup.services 6).invoke echoClass 0 [] echoMachine) =
        some (.fatal (.virtualMachine (.callDepth 2))) ∧
      (endState ((echoSetup.services 6).invoke echoClass 0 [] echoMachine)).depth = 0 ∧
      echoSetup.CountsCalls := by
  have composed : Compositional.OfTable (fun _ action => action.Composed)
      [(⟨"Echo", "greet", "()V"⟩, greet)] :=
    Compositional.ofTable_cons.mpr ⟨fun _ _ _ closed =>
      closed.exec_bind (closed.exec_print _ _) fun _ => closed.exec_pure _, nofun⟩
  have counts : echoSetup.CountsCalls := Setup.countsCalls rfl composed
  refine ⟨by decide +kernel, ?_, counts⟩
  exact counts.returns (Exec.invoke echoClass 0 []) (fun _ _ closed => closed.exec_invoke _ _ _) 6 _

end JavaMachine
