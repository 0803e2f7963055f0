import JavaMachine.Machine.Execution
import JavaMachine.Proofs.Execution.Agreement

/-! # Calls inside calls

A machine that has no chains of frames. It executes the instructions of one frame, and every call
that they make is made by a call of its own, that of a method with code like that of any other.
What such a call gives is taken by the frame that made it; what it throws is offered to the
handlers of that frame alone, at the instruction that made the call, and is thrown on if none of
them takes it. -/

namespace JavaMachine

open Execution (enter leave onFrame findHandler settling runNative runCode invoke)

namespace Nested

/-! ## The machine -/

/-- Goes on in a frame that handles a throwable where it is. If it has no handler for it, the frame
ends and the throwable is thrown on. -/
def offer (exception : Ref) (frame : Frame) : Exec Frame := do
  let thrown := (← Exec.object exception).type
  match ← findHandler frame.pc thrown frame.code.handlers with
  | some target => onFrame (Frame.catchAt target exception) frame
  | none =>
    leave
    throw (.thrown exception)

/-- Goes on in a frame with what a call has ended with. -/
def goOn (rest : Frame → Exec (Option Value)) (caller : Frame)
    (called : EStateM.Result Interruption Machine (Option Value)) :
    Services → EStateM.Result Interruption Machine (Option Value) := fun services =>
  match called with
  | .ok result machine =>
    (do rest (← onFrame (Frame.resume result) caller) : Exec (Option Value)) services machine
  | .error (.thrown exception) machine =>
    (do rest (← offer exception caller) : Exec (Option Value)) services machine
  | .error interruption machine => .error interruption machine

/-- Executes an instruction of a frame, with a way of making calls, and goes on with what is left
to do. -/
def executing (call : LinkedClass → Nat → List Value → Frame → Exec (Option Value))
    (rest : Frame → Exec (Option Value)) (frame : Frame) : Exec (Option Value) :=
  fun services machine =>
    match Step.instruction services ⟨machine, frame, frame.pc⟩ with
    | .ok next ⟨machine, frame, cursor⟩ =>
      match next with
      | .proceed => rest { frame with pc := cursor } services machine
      | .call owner index arguments =>
        call owner index arguments { frame with resumePc := cursor } services machine
      | .finish result =>
        (do
          leave
          return result : Exec (Option Value)) services machine
    | .error (.thrown exception) ⟨machine, frame, _⟩ =>
      (do rest (← offer exception frame) : Exec (Option Value)) services machine
    | .error interruption ⟨machine, _, _⟩ => .error interruption machine

/-- Makes a call by a call of its own and goes on in the frame that makes it. -/
def calling (rest : Frame → Exec (Option Value)) (owner : LinkedClass) (index : Nat)
    (arguments : List Value) (caller : Frame) : Exec (Option Value) := fun services machine =>
  goOn rest caller (services.invoke owner index arguments machine) services

/-- Runs a frame to its end, for at most `fuel` instructions. -/
def run : (fuel : Nat) → Frame → Exec (Option Value)
  | 0, _ => throw .outOfFuel
  | fuel + 1, frame => executing (calling (run fuel)) (run fuel) frame

/-- The services of a machine that runs at most `fuel` calls inside one another, and at most `fuel`
instructions in each. -/
def services (setup : Setup) : (fuel : Nat) → Services
  | 0 => setup.withInvoker fun _ _ _ => throw .outOfFuel
  | fuel + 1 => setup.withInvoker fun owner index arguments machine =>
    invoke setup.natives (fun chain => run fuel chain.frame) owner index arguments
      (services setup fuel) machine

end Nested

/-! ## What is expected of a run -/

namespace Machine

/-- Machines that differ at most in the number of calls in progress. -/
def SameButDepth (machine machine' : Machine) : Prop :=
  ∃ depth, machine' = { machine with depth }

theorem SameButDepth.trans {first second third : Machine} (near : first.SameButDepth second)
    (far : second.SameButDepth third) : first.SameButDepth third := by
  obtain ⟨_, rfl⟩ := near
  obtain ⟨depth, rfl⟩ := far
  exact ⟨depth, rfl⟩

theorem SameButDepth.symm {machine machine' : Machine} (same : machine.SameButDepth machine') :
    machine'.SameButDepth machine := by
  obtain ⟨_, rfl⟩ := same
  exact ⟨machine.depth, rfl⟩

theorem sameButDepth_refl (machine : Machine) : machine.SameButDepth machine :=
  ⟨machine.depth, rfl⟩

theorem SameButDepth.settle {machine machine' : Machine} (same : machine.SameButDepth machine')
    (depth : Nat) : { machine' with depth } = { machine with depth } := by
  obtain ⟨_, rfl⟩ := same
  rfl

end Machine

namespace Expectation

variable {α : Type}

/-- So many calls are in progress after a result, and so many after a throwable. An error may leave
any number behind. -/
def atDepths (ok thrown : Nat) : Expectation Machine α where
  ok _ machine := machine.depth = ok
  thrown machine := machine.depth = thrown
  fatal := Machine.SameButDepth

/-- So many calls are in progress after a result, and so many after an error; nothing is thrown. -/
def silent (ok fatal : Nat) : Expectation Machine α where
  ok _ machine := machine.depth = ok
  thrown _ := False
  fatal machine machine' := machine' = machine ∧ machine.depth = fatal

end Expectation

namespace Agrees

variable {α β : Type} {depth thrown fatal : Nat}

theorem atDepths_of_keeping {result result' : EStateM.Result Interruption Machine α}
    (agrees : Agrees (.keeping depth) result result') :
    Agrees (.atDepths depth depth) result result' := by
  refine agrees.mono (fun _ _ met => met) (fun _ met => met) fun machine machine' met => ?_
  obtain ⟨rfl, -⟩ := met
  exact Machine.sameButDepth_refl _

/-- What throws nothing may be followed by anything. -/
theorem bind_of_silent {first first' : Exec α} {next next' : α → Exec β} {less more : Services}
    {machine : Machine} {ok : Nat}
    (firstAgrees : Agrees (.silent depth fatal) (first less machine) (first' more machine))
    (nextAgrees : ∀ value machine, machine.depth = depth →
      Agrees (.atDepths ok thrown) (next value less machine) (next' value more machine)) :
    Agrees (.atDepths ok thrown) ((first >>= next) less machine)
      ((first' >>= next') more machine) := by
  refine firstAgrees.bind (fun _ => False.elim) (fun machine machine' met => ?_) nextAgrees
  obtain ⟨rfl, -⟩ := met
  exact Machine.sameButDepth_refl _

end Agrees

/-! ## Parts of a run -/

section Parts

variable {less more : Services} (agree : less.Agrees more)

include agree

omit agree in
theorem onFrame_agrees (operation : FrameM Unit) (frame : Frame) (machine : Machine) :
    Agrees (.silent machine.depth machine.depth) (onFrame operation frame less machine)
      (onFrame operation frame more machine) := by
  unfold onFrame
  cases operation frame with
  | ok _ frame => exact .ok rfl
  | error error _ => exact .fatal rfl ⟨rfl, rfl⟩

theorem findHandler_agrees (pc : Nat) (thrown : LinkedClass) (handlers : List Handler)
    (machine : Machine) :
    Agrees (.silent machine.depth machine.depth) (findHandler pc thrown handlers less machine)
      (findHandler pc thrown handlers more machine) := by
  induction handlers generalizing machine with
  | nil => exact .ok rfl
  | cons handler rest ih =>
    rw [findHandler]
    split
    · exact ih machine
    cases handler.catchType with
    | none => exact .ok rfl
    | some name =>
      have loaded : Agrees (.silent machine.depth machine.depth) (Exec.load name less machine)
          (Exec.load name more machine) := by
        simp only [Exec.load, agree.sources]
        cases Loader.load less.sources name machine.loaded with
        | ok c loaded => exact .ok rfl
        | error error loaded => exact .fatal rfl ⟨rfl, rfl⟩
      refine loaded.bind (fun _ => id) (fun _ _ => id) fun caught after met => ?_
      split
      · exact .ok met
      · have kept : after.depth = machine.depth := met
        rw [← kept]
        exact ih after

namespace Nested

/-- A frame that handles nothing ends, and with it its call. -/
theorem offer_agrees (exception : Ref) (frame : Frame) {depth : Nat} {machine : Machine}
    (counted : machine.depth = depth + 1) :
    Agrees (.atDepths (depth + 1) depth) (offer exception frame less machine)
      (offer exception frame more machine) := by
  have found : Agrees (.silent (depth + 1) (depth + 1)) (Exec.object exception less machine)
      (Exec.object exception more machine) := .ok counted
  refine found.bind_of_silent fun object after met => ?_
  have handlers := findHandler_agrees agree frame.pc object.type frame.code.handlers after
  rw [met] at handlers
  refine handlers.bind_of_silent fun target after met => ?_
  cases target with
  | none =>
    refine .thrown ?_
    change after.depth - 1 = depth
    rw [met, Nat.add_sub_cancel]
  | some target =>
    rw [← met]
    refine (onFrame_agrees _ frame after).mono (fun _ _ => id) (fun _ => False.elim) ?_
    rintro _ _ ⟨rfl, -⟩
    exact Machine.sameButDepth_refl _

variable {rest rest' : Frame → Exec (Option Value)} {depth : Nat}
  (restAgrees : ∀ frame machine, machine.depth = depth + 1 →
    Agrees (.atDepths depth depth) (rest frame less machine) (rest' frame more machine))

include restAgrees

/-- A throwable is offered to a frame, which goes on or ends. -/
theorem offer_bind_agrees (exception : Ref) (frame : Frame) {machine : Machine}
    (counted : machine.depth = depth + 1) :
    Agrees (.atDepths depth depth)
      ((do rest (← offer exception frame) : Exec (Option Value)) less machine)
      ((do rest' (← offer exception frame) : Exec (Option Value)) more machine) :=
  (offer_agrees agree exception frame counted).bind (fun _ => id) (fun _ _ => id) restAgrees

theorem goOn_agrees (caller : Frame)
    {called called' : EStateM.Result Interruption Machine (Option Value)}
    (calledAgrees : Agrees (.atDepths (depth + 1) (depth + 1)) called called') :
    Agrees (.atDepths depth depth) (goOn rest caller called less)
      (goOn rest' caller called' more) := by
  cases calledAgrees with
  | outOfFuel => exact .outOfFuel
  | ok met =>
    refine (onFrame_agrees (Frame.resume _) caller _).bind_of_silent ?_
    exact fun frame after kept => restAgrees frame after (kept.trans met)
  | thrown met => exact offer_bind_agrees agree restAgrees _ caller met
  | fatal variant met => exact .fatal variant met

theorem executing_agrees {call call' : LinkedClass → Nat → List Value → Frame → Exec (Option Value)}
    (callAgrees : ∀ owner index arguments caller machine, machine.depth = depth + 1 →
      Agrees (.atDepths depth depth) (call owner index arguments caller less machine)
        (call' owner index arguments caller more machine))
    (frame : Frame) {machine : Machine} (counted : machine.depth = depth + 1) :
    Agrees (.atDepths depth depth) (executing call rest frame less machine)
      (executing call' rest' frame more machine) := by
  have stepped := uniform_compositional.step_instruction less more agree ⟨machine, frame, frame.pc⟩
  unfold executing
  generalize Step.instruction less _ = result at stepped
  generalize Step.instruction more _ = result' at stepped
  cases stepped with
  | outOfFuel => exact .outOfFuel
  | @ok next state met =>
    obtain ⟨machine, frame, cursor⟩ := state
    have kept : machine.depth = depth + 1 := met.trans counted
    cases next with
    | proceed => exact restAgrees _ machine kept
    | call owner index arguments => exact callAgrees owner index arguments _ machine kept
    | finish result =>
      refine .ok ?_
      change machine.depth - 1 = depth
      rw [kept, Nat.add_sub_cancel]
  | @thrown exception state met =>
    obtain ⟨machine, frame, cursor⟩ := state
    exact offer_bind_agrees agree restAgrees exception frame (met.trans counted)
  | @fatal first second state state' variant met =>
    obtain ⟨rfl, -⟩ := met
    exact .fatal variant (Machine.sameButDepth_refl _)

end Nested

/-! ## Calls -/

omit agree in
theorem enter_eq (services : Services) (machine : Machine) :
    enter services machine =
      if machine.depth ≥ services.limits.callDepth then
        .error (.fatal (.virtualMachine (.callDepth services.limits.callDepth))) machine
      else .ok () { machine with depth := machine.depth + 1 } := by
  change (if machine.depth ≥ services.limits.callDepth then _ else _ : Exec Unit) services
    machine = _
  split <;> rfl

theorem enter_agrees (machine : Machine) :
    Agrees (.silent (machine.depth + 1) machine.depth) (enter less machine)
      (enter more machine) := by
  rw [enter_eq, enter_eq, agree.limits]
  split
  · exact .fatal rfl ⟨rfl, rfl⟩
  · exact .ok rfl

omit agree in
/-- Whatever number of calls an action leaves behind, settling it gives the number there was. -/
theorem settling_agrees {α : Type} {expected : Expectation Machine α} {action action' : Exec α}
    {settle : Machine → Machine} {machine : Machine} {depth : Nat}
    (agrees : Agrees expected (action less machine) (action' more machine))
    (ok : ∀ value after, expected.ok value after → (settle after).depth = depth)
    (thrown : ∀ after, expected.thrown after → (settle after).depth = depth)
    (fatal : ∀ after after', expected.fatal after after' →
      settle after' = settle after ∧ (settle after).depth = depth) :
    Agrees (.keeping depth) (settling action settle less machine)
      (settling action' settle more machine) := by
  unfold settling
  generalize action less machine = result at agrees
  generalize action' more machine = result' at agrees
  cases agrees with
  | outOfFuel => exact .outOfFuel
  | ok met => exact .ok (ok _ _ met)
  | thrown met => exact .thrown (thrown _ met)
  | fatal variant met => exact .fatal variant (fatal _ _ met)

theorem runCode_agrees {run run' : Chain → Exec (Option Value)}
    (runAgrees : ∀ depth frame machine, machine.depth = depth + 1 →
      Agrees (.atDepths depth depth) (run ⟨frame, []⟩ less machine) (run' ⟨frame, []⟩ more machine))
    (owner : LinkedClass) (index : Nat) (arguments : List Value) (machine : Machine) :
    Agrees (.keeping machine.depth) (runCode run owner index arguments less machine)
      (runCode run' owner index arguments more machine) := by
  unfold runCode
  cases Frame.enter owner index arguments with
  | error error => exact .fatal rfl ⟨rfl, rfl⟩
  | ok frame =>
    have ran : Agrees (.atDepths machine.depth machine.depth)
        ((do enter; run ⟨frame, []⟩ : Exec (Option Value)) less machine)
        ((do enter; run' ⟨frame, []⟩ : Exec (Option Value)) more machine) :=
      (enter_agrees agree machine).bind_of_silent fun _ entered met =>
        runAgrees machine.depth frame entered met
    exact settling_agrees ran (fun _ _ _ => rfl) (fun _ _ => rfl) fun _ _ met =>
      ⟨met.settle machine.depth, rfl⟩

/-- A native method, while it runs, counts as a call. -/
theorem runNative_agrees {natives : NativeTable}
    (uniform : Compositional.OfTable (fun _ action => Uniform action) natives)
    (owner : LinkedClass) (method : Method) (arguments : List Value) (machine : Machine) :
    Agrees (.keeping machine.depth) (runNative natives owner method arguments less machine)
      (runNative natives owner method arguments more machine) := by
  have counted {action : Exec (Option Value)} (inner : Uniform action) :
      Agrees (.keeping machine.depth)
        ((do enter; settling action fun machine => { machine with depth := machine.depth - 1 } :
          Exec (Option Value)) less machine)
        ((do enter; settling action fun machine => { machine with depth := machine.depth - 1 } :
          Exec (Option Value)) more machine) := by
    refine (enter_agrees agree machine).bind (fun _ => False.elim) (fun _ _ => id) ?_
    intro _ entered met
    have left {after : Machine} (kept : after.depth = entered.depth) :
        after.depth - 1 = machine.depth := by
      rw [kept, met, Nat.add_sub_cancel]
    refine settling_agrees (inner less more agree entered) (fun _ _ => left) (fun _ => left) ?_
    rintro after _ ⟨rfl, kept⟩
    exact ⟨rfl, left kept⟩
  unfold runNative
  cases found : natives.lookup ⟨owner.name, method.name, method.descriptorText⟩ with
  | none => exact counted (uniform_throw _)
  | some function =>
    obtain ⟨before, after, rfl, -⟩ := List.lookup_eq_some_iff.mp found
    exact counted (uniform _ (List.mem_append_right before List.mem_cons_self) _)

/-- Calls agree if the runs of frames do. -/
theorem invoke_agrees {natives : NativeTable}
    (uniform : Compositional.OfTable (fun _ action => Uniform action) natives)
    {run run' : Chain → Exec (Option Value)}
    (runAgrees : ∀ depth frame machine, machine.depth = depth + 1 →
      Agrees (.atDepths depth depth) (run ⟨frame, []⟩ less machine) (run' ⟨frame, []⟩ more machine))
    (owner : LinkedClass) (index : Nat) (arguments : List Value) (machine : Machine) :
    Agrees (.keeping machine.depth) (invoke natives run owner index arguments less machine)
      (invoke natives run' owner index arguments more machine) := by
  unfold invoke
  cases owner.method? index with
  | none => exact uniform_throw _ less more agree machine
  | some method =>
    dsimp only
    split
    · exact uniform_throw _ less more agree machine
    · split
      · exact runNative_agrees agree uniform owner method arguments machine
      · exact runCode_agrees agree runAgrees owner index arguments machine

/-! ## More fuel -/

namespace Nested

/-- A call of its own is gone on from by frames that agree on what is left. -/
theorem calling_agrees {rest rest' : Frame → Exec (Option Value)} {depth : Nat}
    (restAgrees : ∀ frame machine, machine.depth = depth + 1 →
      Agrees (.atDepths depth depth) (rest frame less machine) (rest' frame more machine))
    (owner : LinkedClass) (index : Nat) (arguments : List Value) (caller : Frame)
    {machine : Machine} (counted : machine.depth = depth + 1) :
    Agrees (.atDepths depth depth) (calling rest owner index arguments caller less machine)
      (calling rest' owner index arguments caller more machine) := by
  refine goOn_agrees agree restAgrees caller ?_
  rw [← counted]
  exact (agree.invoke owner index arguments machine).atDepths_of_keeping

/-- A run that ends does so with more fuel as well. -/
theorem run_agrees {fuel fuel' : Nat} (enough : fuel ≤ fuel') {depth : Nat} (frame : Frame)
    (machine : Machine) (counted : machine.depth = depth + 1) :
    Agrees (.atDepths depth depth) (run fuel frame less machine)
      (run fuel' frame more machine) := by
  induction fuel generalizing fuel' frame machine with
  | zero => exact .outOfFuel
  | succ fuel ih =>
    obtain ⟨fuel', rfl⟩ := Nat.exists_eq_add_of_lt enough
    have restAgrees (frame : Frame) (machine : Machine) :=
      ih (Nat.le_add_right fuel fuel') frame machine
    refine executing_agrees agree restAgrees ?_ frame counted
    intro owner index arguments caller machine
    exact calling_agrees agree restAgrees owner index arguments caller

end Nested

end Parts

variable {setup : Setup}

/-- Services that carry out no call agree with all that differ from them in nothing else. -/
theorem withInvoker_outOfFuel_agrees (invoke : Invoker) :
    (setup.withInvoker fun _ _ _ => throw .outOfFuel).Agrees (setup.withInvoker invoke) :=
  ⟨rfl, rfl, rfl, fun _ _ _ _ => .outOfFuel⟩

theorem Nested.services_zero_agrees (fuel : Nat) :
    (services setup 0).Agrees (services setup fuel) := by
  cases fuel <;> exact withInvoker_outOfFuel_agrees _

theorem Setup.services_zero_agrees (fuel : Nat) :
    (setup.services 0).Agrees (setup.services fuel) := by
  cases fuel <;> exact withInvoker_outOfFuel_agrees _

theorem Nested.services_agree
    (uniform : Compositional.OfTable (fun _ action => Uniform action) setup.natives)
    {fuel fuel' : Nat} (enough : fuel ≤ fuel') :
    (services setup fuel).Agrees (services setup fuel') := by
  induction fuel generalizing fuel' with
  | zero => exact services_zero_agrees fuel'
  | succ fuel ih =>
    obtain ⟨more, rfl⟩ := Nat.exists_eq_add_of_lt enough
    have inner := ih (Nat.le_add_right fuel more)
    exact ⟨rfl, rfl, rfl, invoke_agrees inner uniform fun _ frame machine =>
      run_agrees inner (Nat.le_add_right fuel more) frame machine⟩

end JavaMachine
