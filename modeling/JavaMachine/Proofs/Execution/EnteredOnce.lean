import JavaMachine.Proofs.Execution.Traced

/-! # Calls enter fresh initializers only

What an instruction adds to a chain of frames is no initializer, and what it enters besides is
careful; so is the run of a chain, step by step, and by induction on the fuel every call
(`Regime.callsTraced`). An initializer is entered when its class is initialized, which is before that
untouched and never again. -/

namespace JavaMachine

open Loader (Defines)

theorem Setup.limits_services (setup : Setup) (fuel : Nat) :
    (setup.services fuel).limits = setup.limits := by
  cases fuel <;> rfl

namespace Frame

theorem of_enter {owner : LinkedClass} {index : Nat} {arguments : List Value} {callee : Frame}
    (entered : enter owner index arguments = .ok callee) :
    callee.owner = owner ∧ owner.method? index = some callee.method := by
  unfold enter at entered
  split at entered
  · cases entered
  · next method present =>
    dsimp only at entered
    split at entered
    · cases entered
    · split at entered
      · cases entered
      · cases entered
        exact ⟨rfl, present⟩

end Frame

/-! ## Chains -/

namespace Execution

variable {setup : Setup}

theorem callFree_onFrame (operation : FrameM Unit) (frame : Frame) :
    CallFree setup (onFrame operation frame) := by
  unfold onFrame
  split
  · exact callFree_pure _
  · exact callFree_throw _

theorem callFree_enter : CallFree setup enter := by
  intro first second machine
  rw [enter_eq, enter_eq]
  rfl

theorem callFree_leave : CallFree setup leave :=
  fun _ _ _ => rfl

theorem callFree_findHandler (pc : Nat) (thrown : LinkedClass) (handlers : List Handler) :
    CallFree setup (findHandler pc thrown handlers) := by
  induction handlers with
  | nil => exact callFree_pure _
  | cons handler rest ih =>
    have loads (name : String) : CallFree setup (Exec.load name) := fun _ _ _ => rfl
    rw [findHandler]
    split
    · exact ih
    · split
      · exact callFree_pure _
      · refine (loads _).bind fun caught => ?_
        split
        · exact callFree_pure _
        · exact ih

theorem callFree_unwind (exception : Ref) (frame : Frame) (callers : List Frame) :
    CallFree setup (unwind exception frame callers) := by
  induction callers generalizing frame with
  | nil =>
    rw [unwind]
    refine (Exec.callFree_object exception).bind fun object => ?_
    refine (callFree_findHandler _ _ _).bind fun handler => ?_
    split
    · exact (callFree_onFrame _ _).bind fun _ => callFree_pure _
    · exact callFree_leave.bind fun _ => callFree_throw _
  | cons caller rest ih =>
    rw [unwind]
    refine (Exec.callFree_object exception).bind fun object => ?_
    refine (callFree_findHandler _ _ _).bind fun handler => ?_
    split
    · exact (callFree_onFrame _ _).bind fun _ => callFree_pure _
    · exact callFree_leave.bind fun _ => ih caller

theorem callFree_finish (result : Option Value) (callers : List Frame) :
    CallFree setup (finish result callers) := by
  refine callFree_leave.bind fun _ => ?_
  cases callers with
  | nil => exact callFree_pure _
  | cons caller rest => exact (callFree_onFrame _ _).bind fun _ => callFree_pure _

theorem callFree_onThrown {α : Type} {handle : Ref → Exec α}
    (handled : ∀ exception, CallFree setup (handle exception)) (interruption : Interruption) :
    CallFree setup (onThrown handle interruption) := by
  cases interruption with
  | thrown exception => exact handled exception
  | fatal | outOfFuel => exact callFree_throw _

section Callers

variable {services : Services} {machine after : Machine} {chain : Chain} {frame : Frame}
  {callers : List Frame}

/-- Frames may end when something is thrown, and none begins. -/
theorem callers_of_unwind {exception : Ref}
    (ended : unwind exception frame callers services machine = .ok chain after) :
    chain.callers.length ≤ callers.length := by
  induction callers generalizing frame machine with
  | nil =>
    rw [unwind] at ended
    obtain ⟨object, _, -, ended⟩ := Operation.exists_of_bind_ok ended
    obtain ⟨handler, _, -, ended⟩ := Operation.exists_of_bind_ok ended
    cases handler with
    | some target =>
      obtain ⟨handling, _, -, ended⟩ := Operation.exists_of_bind_ok ended
      cases ended
      exact Nat.le_refl _
    | none =>
      obtain ⟨_, _, -, ended⟩ := Operation.exists_of_bind_ok ended
      cases ended
  | cons caller rest ih =>
    rw [unwind] at ended
    obtain ⟨object, _, -, ended⟩ := Operation.exists_of_bind_ok ended
    obtain ⟨handler, _, -, ended⟩ := Operation.exists_of_bind_ok ended
    cases handler with
    | some target =>
      obtain ⟨handling, _, -, ended⟩ := Operation.exists_of_bind_ok ended
      cases ended
      exact Nat.le_refl _
    | none =>
      obtain ⟨_, _, -, ended⟩ := Operation.exists_of_bind_ok ended
      exact Nat.le_succ_of_le (ih ended)

/-- A method without code has no frame. -/
theorem callers_of_callBodiless {owner : LinkedClass} {index : Nat} {arguments : List Value}
    (ended : callBodiless owner index arguments frame callers services machine = .ok chain after) :
    chain.callers.length ≤ callers.length := by
  rw [callBodiless] at ended
  cases called : services.invoke owner index arguments machine with
  | ok result reached =>
    rw [called] at ended
    obtain ⟨resumed, _, -, ended⟩ := Operation.exists_of_bind_ok ended
    cases ended
    exact Nat.le_refl _
  | error interruption reached =>
    rw [called] at ended
    cases interruption with
    | thrown exception => exact callers_of_unwind ended
    | fatal | outOfFuel => cases ended

/-- A frame that a call begins is that of the method. -/
theorem entered_of_call {owner : LinkedClass} {index : Nat} {arguments : List Value}
    (ended : call owner index arguments frame callers services machine = .ok chain after) :
    chain.callers.length ≤ callers.length ∨
      chain.frame.owner = owner ∧ owner.method? index = some chain.frame.method := by
  unfold call at ended
  cases present : owner.method? index with
  | none =>
    rw [present] at ended
    cases ended
  | some method =>
    rw [present] at ended
    by_cases bodiless : method.isBodiless = true
    · simp only [if_pos bodiless] at ended
      exact .inl (callers_of_callBodiless ended)
    · simp only [if_neg bodiless] at ended
      obtain ⟨_, _, -, ended⟩ := Operation.exists_of_bind_ok ended
      obtain ⟨callee, _, entered, ended⟩ := Operation.exists_of_bind_ok ended
      cases ended
      cases begun : Frame.enter owner index arguments with
      | ok frame =>
        rw [begun] at entered
        cases entered
        exact .inr (present ▸ Frame.of_enter begun)
      | error error =>
        rw [begun] at entered
        cases entered

theorem callers_of_finish {result : Option Value}
    (ended : finish result callers services machine = .ok (.running chain) after) :
    chain.callers.length ≤ callers.length := by
  obtain ⟨_, _, -, ended⟩ := Operation.exists_of_bind_ok ended
  cases callers with
  | nil => cases ended
  | cons caller rest =>
    obtain ⟨resumed, _, -, ended⟩ := Operation.exists_of_bind_ok ended
    cases ended
    exact Nat.le_succ _

end Callers

/-- It does not matter to the phases how many calls are counted in the end. -/
theorem phases_settling {α : Type} {action : Exec α} {services : Services} {machine : Machine}
    {depth : Nat} :
    (endState (settling action (fun after => { after with depth }) services machine)).phases =
      (endState (action services machine)).phases := by
  unfold settling
  cases action services machine <;> rfl

end Execution

namespace Regime

open Execution
open Exec (followed)

variable {setup : Setup} {start : Heap} {fuel : Nat} {live : List Activation} {machine : Machine}
  {frame : Frame} {callers : List Frame}

section Step

variable (governs : (sound setup start).Governs setup) (grounded : setup.Grounded)
  (unnamed : InitializersUnnamed setup.sources) (calls : CallsTraced setup start fuel)

include governs grounded unnamed calls

/-- What an instruction that is executed at a regular moment enters, and the moment after it. -/
theorem exists_after_instruction
    (regular : (sound setup start).Regular setup (Chain.live ⟨frame, callers⟩ ++ live) machine) :
    Traced setup fuel (Step.instruction.detached frame frame.pc) machine ∧
      ∀ next frame' cursor after,
        Step.instruction.detached frame frame.pc (setup.services fuel) machine =
            .ok (next, frame', cursor) after →
          (sound setup start).Regular setup (Chain.live ⟨frame, callers⟩ ++ live) after ∧
            ∀ owner index arguments, next = .ok (.call owner index arguments) →
              (Knowledge.sealed setup.sources).Method owner index := by
  obtain ⟨index, ⟨defined, -⟩, -⟩ := regular.mem_live.method
  have careful := carefulIn_instruction governs grounded unnamed calls defined
  have regularState : (sound setup start).Regular setup (Chain.live ⟨frame, callers⟩ ++ live)
      (MachineState.machine (⟨machine, frame, frame.pc⟩ : StepState)) := regular
  obtain ⟨within, given⟩ := governs.ends_leads careful.within fuel regularState rfl
  have regularAfter := regularState.after within
  refine ⟨careful.traced _ ⟨machine, frame, frame.pc⟩ regular rfl, ?_⟩
  intro next frame' cursor after ended
  rw [Step.detached] at ended
  cases stepped : Step.instruction (setup.services fuel) ⟨machine, frame, frame.pc⟩ with
  | ok value reached =>
    rw [stepped] at ended regularAfter
    cases ended
    refine ⟨regularAfter, fun owner index arguments same => ?_⟩
    cases same
    exact (given _ _ stepped).1
  | error interruption reached =>
    rw [stepped] at ended regularAfter
    cases ended
    exact ⟨regularAfter, fun _ _ _ same => by cases same⟩

omit governs grounded unnamed in
/-- A call of a method that is no initializer from a frame. -/
theorem traced_call {owner : LinkedClass} {index : Nat}
    (callable : (Knowledge.sealed setup.sources).Method owner index) (arguments : List Value)
    (regular : (sound setup start).Regular setup live machine) :
    Traced setup fuel (call owner index arguments frame callers) machine := by
  unfold call
  split
  · exact .throw _
  · split
    · rw [callBodiless_eq]
      have resumes (result : Option Value) : CallFree setup
          (do return ⟨← onFrame (Frame.resume result) frame, callers⟩ : Exec Chain) :=
        (callFree_onFrame _ _).bind fun _ => callFree_pure _
      exact (tracedFrom_invoke calls callable arguments live machine regular trivial).followed
        (fun result _ _ => .of_callFree (resumes result)
          (charted_onFrame.bind fun _ => charted_pure _))
        fun interruption _ _ => .of_callFree
          (callFree_onThrown (fun exception => callFree_unwind exception frame callers) interruption)
          (charted_onThrown (fun _ => charted_unwind) interruption)
    · exact .of_callFree
        (callFree_enter.bind fun _ => (Exec.callFree_ofExcept _).bind fun _ => callFree_pure _)
        (charted_enter.bind fun _ => charted_ofExcept.bind fun _ => charted_pure _)

/-- **An instruction enters fresh initializers only, and adds no frame of one.** -/
theorem traced_advance
    (regular : (sound setup start).Regular setup (Chain.live ⟨frame, callers⟩ ++ live) machine) :
    Traced setup fuel (advance ⟨frame, callers⟩) machine := by
  obtain ⟨traced, reaches⟩ :=
    exists_after_instruction governs grounded unnamed calls regular
  rw [advance_eq]
  refine traced.bind fun reached after ended => ?_
  obtain ⟨result, frame', cursor⟩ := reached
  obtain ⟨regularAfter, callable⟩ := reaches _ _ _ _ ended
  cases result with
  | error interruption =>
    refine .of_callFree (callFree_onThrown (fun exception => ?_) interruption)
      (charted_onThrown (fun _ => charted_unwind.bind fun _ => charted_pure _) interruption)
    exact (callFree_unwind exception frame' callers).bind fun _ => callFree_pure _
  | ok next =>
    cases next with
    | proceed => exact .pure _
    | call owner index arguments =>
      exact (traced_call calls (callable owner index arguments rfl) arguments
        regularAfter).bind fun _ _ _ => .pure _
    | finish result => exact .of_callFree (callFree_finish result callers) charted_finish

theorem initialized_entered {next : Chain} {after : Machine}
    (regular : (sound setup start).Regular setup (Chain.live ⟨frame, callers⟩ ++ live) machine)
    (advanced : advance ⟨frame, callers⟩ (setup.services fuel) machine = .ok (.running next) after) :
    Entry.initialized (Chain.entered ⟨frame, callers⟩ next) = [] := by
  suffices plain : next.callers.length ≤ callers.length ∨ next.frame.method.isInitializer = false by
    unfold Chain.entered
    split
    · next longer =>
      rcases plain with shorter | plain
      · exact absurd shorter (Nat.not_le.mpr longer)
      · exact Entry.initialized_plain plain
    · rfl
  rw [advance_eq] at advanced
  obtain ⟨⟨result, frame', cursor⟩, reached, ended, advanced⟩ :=
    Operation.exists_of_bind_ok advanced
  have callable :=
    ((exists_after_instruction governs grounded unnamed calls regular).2 _ _ _ _ ended).2
  cases result with
  | error interruption =>
    cases interruption with
    | thrown exception =>
      obtain ⟨chain, _, unwound, advanced⟩ := Operation.exists_of_bind_ok advanced
      cases advanced
      exact .inl (callers_of_unwind unwound)
    | fatal | outOfFuel => cases advanced
  | ok step =>
    cases step with
    | proceed =>
      cases advanced
      exact .inl (Nat.le_refl _)
    | call owner index arguments =>
      obtain ⟨chain, _, called, advanced⟩ := Operation.exists_of_bind_ok advanced
      cases advanced
      obtain ⟨-, method, present, plain⟩ := callable owner index arguments rfl
      rcases entered_of_call called with shorter | ⟨-, same⟩
      · exact .inl shorter
      · cases present.symm.trans same
        exact .inr plain
    | finish result => exact .inl (callers_of_finish advanced)

/-- **The run of a chain enters fresh initializers only**, instruction by instruction. -/
theorem exists_entries_run (steps : Nat) (chain : Chain) (machine : Machine)
    (regular : (sound setup start).Regular setup (chain.live ++ live) machine) :
    ∃ entries, RunEnters setup fuel steps chain machine entries ∧
      Fresh machine.phases (endState (run steps chain (setup.services fuel) machine)).phases
        entries := by
  induction steps generalizing chain machine with
  | zero => exact ⟨[], .exhausted, .nil fun _ => id⟩
  | succ steps ih =>
    obtain ⟨frame, callers⟩ := chain
    obtain ⟨entries, enters, fresh⟩ := traced_advance governs grounded unnamed calls regular
    have advances := governs.advances fuel regular
    rw [run]
    cases advanced : advance ⟨frame, callers⟩ (setup.services fuel) machine with
    | error interruption after =>
      rw [Operation.bind_of_error advanced]
      rw [advanced] at fresh
      refine ⟨entries, .ended enters fun next after same => ?_, fresh⟩
      cases advanced.symm.trans same
    | ok progress after =>
      rw [Operation.bind_of_ok advanced]
      rw [advanced] at fresh advances
      cases advances with
      | running regularAfter kept =>
        obtain ⟨later, runs, freshLater⟩ := ih _ _ regularAfter
        have plain := initialized_entered governs grounded unnamed calls regular advanced
        exact ⟨_, .running enters advanced runs, fresh.append (.of_plain plain freshLater)⟩
      | finished good kept =>
        refine ⟨entries, .ended enters fun next after same => ?_, fresh⟩
        cases advanced.symm.trans same

end Step

/-! ## Calls -/

section Calls

variable (governs : (sound setup start).Governs setup)
  (natives : Serving (Knowledge.provided setup.sources).Calls
    (fun _ action => Careful setup start fuel anything action) setup.natives)

include natives

theorem traced_runNative {owner : LinkedClass} (defined : Defines setup.sources owner)
    (method : Method) (arguments : List Value)
    (regular : (sound setup start).Regular setup live machine) :
    Traced setup fuel (runNative setup.natives owner method arguments) machine := by
  have counts : Charted setup 0
      (modify fun machine : Machine => { machine with depth := machine.depth - 1 } : Exec Unit) :=
    Exec.charted_modify fun _ => rfl
  have countsFree : CallFree setup
      (modify fun machine : Machine => { machine with depth := machine.depth - 1 } : Exec Unit) :=
    fun _ _ _ => rfl
  -- The call is counted off however the method ends.
  have settles {action : Exec (Option Value)} {begun : Machine}
      (inner : Traced setup fuel action begun) :
      Traced setup fuel
        (settling action fun machine => { machine with depth := machine.depth - 1 }) begun := by
    rw [settling_eq]
    exact inner.followed
      (fun result _ _ => .of_callFree (countsFree.bind fun _ => callFree_pure result)
        (counts.bind fun _ => charted_pure result))
      fun interruption _ _ => .of_callFree (countsFree.bind fun _ => callFree_throw interruption)
        (counts.bind fun _ => charted_throw interruption)
  refine (Traced.of_callFree callFree_enter charted_enter).bind fun _ after entered => settles ?_
  rw [enter_eq, Setup.limits_services] at entered
  split at entered
  · cases entered
  · next room =>
    cases entered
    cases found : setup.natives.lookup ⟨owner.name, method.name, method.descriptorText⟩ with
    | none => exact .throw _
    | some function =>
      obtain ⟨before, rest, table, -⟩ := List.lookup_eq_some_iff.mp found
      have member : (⟨owner.name, method.name, method.descriptorText⟩, function) ∈ setup.natives :=
        table ▸ List.mem_append_right before List.mem_cons_self
      have careful := natives _ member ⟨owner, method, Value.ofSlots arguments⟩ ⟨defined, rfl⟩
      have begun : (sound setup start).Regular setup (.native owner method :: live)
          { machine with depth := machine.depth + 1 } := regular.push room nofun
      exact careful.traced _ _ begun trivial

variable (grounded : setup.Grounded) (unnamed : InitializersUnnamed setup.sources)
  (calls : CallsTraced setup start fuel)

include governs grounded unnamed calls

/-- **With more fuel, calls enter fresh initializers still**: a native method as its careful action, and
code as the run of its frame. -/
theorem callsTraced_succ : CallsTraced setup start (fuel + 1) := by
  intro owner index arguments live machine callable regular
  obtain ⟨defined, inside⟩ := callable
  obtain ⟨method, present⟩ : ∃ method, owner.method? index = some method :=
    ⟨_, Array.getElem?_eq_getElem inside⟩
  have refuses (interruption : Interruption)
      (same : ∀ natives run other, invoke natives run owner index arguments
        (setup.withInvoker other) machine = .error interruption machine) :
      CallTraced setup (fuel + 1) owner index arguments machine := by
    have here : Exec.invoke owner index arguments (setup.services (fuel + 1)) machine =
        .error interruption machine := by
      rw [← same setup.natives (run fuel) (setup.services fuel).invoke, Setup.withInvoker_services]
      rfl
    refine ⟨[], [], .refused fun natives run other => (same natives run other).trans here.symm,
      Nat.zero_le _, nofun, ?_⟩
    rw [here]
    exact .nil fun _ => id
  have invoked (natives : NativeTable) (run : Chain → Exec (Option Value)) :
      invoke natives run owner index arguments =
        if method.isAbstract then Exec.fail (.abstractMethod owner.name method.key)
        else if method.isNative then runNative natives owner method arguments
        else runCode run owner index arguments := by
    rw [invoke, present]
  have own : ∀ entry ∈ [(⟨owner, method⟩ : Entry)],
      entry.owner = owner ∧ owner.method? index = some entry.method := by
    intro entry member
    rw [List.mem_singleton.mp member]
    exact ⟨rfl, present⟩
  have here : Exec.invoke owner index arguments (setup.services (fuel + 1)) machine =
      invoke setup.natives (run fuel) owner index arguments (setup.services fuel) machine := rfl
  by_cases isAbstract : method.isAbstract = true
  · refine refuses (.fatal (.abstractMethod owner.name method.key)) fun natives run other => ?_
    rw [invoked, if_pos isAbstract]
    rfl
  have concrete := Bool.eq_false_of_not_eq_true isAbstract
  by_cases isNative : method.isNative = true
  · obtain ⟨entries, enters, fresh⟩ := traced_runNative natives defined method arguments regular
    refine ⟨[⟨owner, method⟩], entries, .native present concrete isNative enters, Nat.le_refl _, own, ?_⟩
    rw [here, invoked, if_neg isAbstract, if_pos isNative]
    exact fresh
  have hasBody : method.isBodiless = false := by
    rw [Method.isBodiless, concrete, Bool.eq_false_of_not_eq_true isNative]
    rfl
  cases entered : Frame.enter owner index arguments with
  | error error =>
    refine refuses (.fatal error) fun natives run other => ?_
    rw [invoked, if_neg isAbstract, if_neg isNative, runCode, entered]
    rfl
  | ok frame =>
    have ran (run : Chain → Exec (Option Value)) (services : Services) :
        runCode run owner index arguments services machine =
          settling (do enter; run ⟨frame, []⟩) (fun after => { after with depth := machine.depth })
            services machine := by
      rw [runCode, entered]
      rfl
    by_cases deep : machine.depth ≥ setup.limits.callDepth
    · refine refuses (.fatal (.virtualMachine (.callDepth setup.limits.callDepth))) fun natives run other => ?_
      have stopped : enter (setup.withInvoker other) machine = _ :=
        (enter_eq _ machine).trans (if_pos deep)
      rw [invoked, if_neg isAbstract, if_neg isNative, ran, settling, Operation.bind_of_error stopped]
      rfl
    · let ready : Machine := { machine with depth := machine.depth + 1 }
      have counted : enter (setup.services fuel) machine = .ok () ready := by
        rw [enter_eq, Setup.limits_services, if_neg deep]
      have begun : (sound setup start).Regular setup (Chain.live ⟨frame, []⟩ ++ live) ready := by
        refine regular.push deep fun each same => ?_
        cases same
        exact hosts_of_enter ⟨defined, inside⟩ entered
      obtain ⟨entries, enters, fresh⟩ :=
        exists_entries_run governs grounded unnamed calls fuel ⟨frame, []⟩ ready begun
      refine ⟨[⟨owner, method⟩], entries, .code present hasBody entered counted enters, Nat.le_refl _,
        own, ?_⟩
      rw [here, invoked, if_neg isAbstract, if_neg isNative, ran, phases_settling,
        Operation.bind_of_ok counted]
      exact fresh

end Calls

/-- **Every call enters fresh initializers only**, whatever its fuel is, if the native methods are
careful where calls are. -/
theorem callsTraced (governs : (sound setup start).Governs setup)
    (grounded : setup.Grounded) (unnamed : InitializersUnnamed setup.sources)
    (natives : ∀ fuel, CallsTraced setup start fuel →
      Serving (Knowledge.provided setup.sources).Calls
        (fun _ action => Careful setup start fuel anything action) setup.natives) :
    ∀ fuel, CallsTraced setup start fuel := by
  intro fuel
  induction fuel with
  | zero =>
    exact fun _ _ _ _ _ _ _ => ⟨[], [], .exhausted, Nat.zero_le _, nofun, .nil fun _ => id⟩
  | succ fuel ih => exact callsTraced_succ governs (natives fuel ih) grounded unnamed ih

end Regime

end JavaMachine
