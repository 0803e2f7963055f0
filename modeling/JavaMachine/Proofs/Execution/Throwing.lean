import JavaMachine.Proofs.Execution.Unwinding

/-! # Throwables and errors in a run

While a chain runs, the frames that wait are at the instructions of their calls, and there are as
many calls in progress as frames, or more. So a throwable finds the handlers of the calls that led
to it (`Setup.Sourced.dispatches`). An error ends the run at once, whatever handlers there are. -/

namespace JavaMachine

open Relation (ReflTransGen)
open Execution (unwind findHandler onFrame advance callBodiless call finish enter leave run Progress)
open Operation (exists_of_bind_ok)

/-! ## Steps of a run -/

/-- A chain and a machine go on with the next instruction. -/
def Advances (services : Services) (before after : Chain × Machine) : Prop :=
  advance before.1 services before.2 = .ok (.running after.1) after.2

/-- Every frame of the chain counts as a call in progress, and those that wait are at the
instructions of their calls. -/
structure Chain.InOrder (chain : Chain) (machine : Machine) : Prop where
  counted : chain.callers.length < machine.depth
  waiting : ∀ caller ∈ chain.callers, caller.AtCall

theorem Agrees.of_ok {σ α : Type} {expected : Expectation σ α} {value : α} {after : σ}
    {other : EStateM.Result Interruption σ α} (agrees : Agrees expected (.ok value after) other) :
    expected.ok value after := by
  cases agrees with
  | ok met => exact met

theorem Agrees.of_thrown {σ α : Type} {expected : Expectation σ α} {exception : Ref} {after : σ}
    {other : EStateM.Result Interruption σ α}
    (agrees : Agrees expected (.error (.thrown exception) after) other) :
    expected.thrown after := by
  cases agrees with
  | thrown met => exact met

section Steps

variable {services : Services} {machine after : Machine} {frame : Frame} {callers : List Frame}
  {chain : Chain} (agree : services.Agrees services)

/-- The callers of a chain that goes on in its outermost frame but some. -/
theorem Chain.InOrder.of_caller {caller : Frame} {rest : List Frame}
    (inOrder : InOrder ⟨frame, caller :: rest⟩ machine) (other : Frame) :
    InOrder ⟨other, rest⟩ { machine with depth := machine.depth - 1 } where
  counted := by
    have counted : rest.length + 1 < machine.depth := inOrder.counted
    change rest.length < machine.depth - 1
    omega
  waiting := (List.forall_mem_cons.mp inOrder.waiting).2

theorem Chain.InOrder.of_same {other : Frame} (inOrder : InOrder ⟨frame, callers⟩ machine)
    (depth : after.depth = machine.depth) : InOrder ⟨other, callers⟩ after where
  counted := depth ▸ inOrder.counted
  waiting := inOrder.waiting

omit agree in
theorem onFrame_eq_ok {operation : FrameM Unit} {other : Frame}
    (ended : onFrame operation frame services machine = .ok other after) : after = machine := by
  unfold onFrame at ended
  cases operated : operation frame with
  | ok _ _ =>
    rw [operated] at ended
    cases ended
    rfl
  | error _ _ =>
    rw [operated] at ended
    cases ended

include agree

/-- A frame that a throwable is offered to goes on, or ends and its callers go on. -/
theorem offering_eq_ok {α : Type} {exception : Ref} {found : Frame → Exec α} {rest : Exec α}
    {value : α}
    (ended : Chain.offering exception frame found rest services machine = .ok value after) :
    (∃ other middle, middle.depth = machine.depth ∧
      found other services middle = .ok value after) ∨
    ∃ middle, middle.depth = machine.depth - 1 ∧ rest services middle = .ok value after := by
  unfold Chain.offering at ended
  obtain ⟨object, begun, got, ended⟩ := exists_of_bind_ok ended
  cases got
  obtain ⟨target, middle, searched, ended⟩ := exists_of_bind_ok ended
  have depth : middle.depth = machine.depth := by
    have agrees := findHandler_agrees agree frame.pc (machine.heap.get exception).type
      frame.code.handlers machine
    rw [searched] at agrees
    exact agrees.of_ok
  cases target with
  | some target =>
    dsimp only at ended
    obtain ⟨other, middle', placed, goes⟩ := exists_of_bind_ok ended
    obtain rfl := onFrame_eq_ok placed
    exact .inl ⟨other, middle', depth, goes⟩
  | none =>
    dsimp only at ended
    obtain ⟨_, middle', left, ended⟩ := exists_of_bind_ok ended
    cases left
    exact .inr ⟨_, congrArg (· - 1) depth, ended⟩

theorem inOrder_of_unwind {exception : Ref} (inOrder : Chain.InOrder ⟨frame, callers⟩ machine)
    (ended : unwind exception frame callers services machine = .ok chain after) :
    chain.InOrder after := by
  induction callers generalizing frame machine with
  | nil =>
    rw [Chain.unwind_nil] at ended
    rcases offering_eq_ok agree ended with ⟨other, middle, depth, goes⟩ | ⟨middle, -, thrown⟩
    · cases goes
      exact inOrder.of_same depth
    · cases thrown
  | cons caller rest ih =>
    rw [Chain.unwind_cons] at ended
    rcases offering_eq_ok agree ended with ⟨other, middle, depth, goes⟩ | ⟨middle, depth, unwinds⟩
    · cases goes
      exact inOrder.of_same depth
    · exact ih ((inOrder.of_caller caller).of_same depth) unwinds

/-- A call that a frame makes leaves the frame waiting, or in front. -/
theorem inOrder_of_call {owner : LinkedClass} {index : Nat} {arguments : List Value}
    (inOrder : Chain.InOrder ⟨frame, callers⟩ machine) (atCall : frame.AtCall)
    (ended : call owner index arguments frame callers services machine = .ok chain after) :
    chain.InOrder after := by
  unfold call at ended
  cases found : owner.method? index with
  | none =>
    rw [found] at ended
    cases ended
  | some method =>
    simp only [found] at ended
    split at ended
    · rw [Chain.callBodiless_eq_attempt] at ended
      have kept := agree.invoke owner index arguments machine
      unfold Exec.attempt Exec.invoke at ended
      cases called : services.invoke owner index arguments machine with
      | ok result middle =>
        rw [called] at ended kept
        obtain ⟨other, middle', placed, goes⟩ := exists_of_bind_ok ended
        obtain rfl := onFrame_eq_ok placed
        cases goes
        exact inOrder.of_same kept.of_ok
      | error interruption middle =>
        rw [called] at ended kept
        cases interruption with
        | thrown exception =>
          exact inOrder_of_unwind agree (inOrder.of_same kept.of_thrown) ended
        | fatal error => cases ended
        | outOfFuel => cases ended
    · obtain ⟨_, middle, entered, ended⟩ := exists_of_bind_ok ended
      obtain ⟨callee, middle', made, goes⟩ := exists_of_bind_ok ended
      cases goes
      rw [enter_eq] at entered
      split at entered
      · cases entered
      · cases entered
        have same : after = { machine with depth := machine.depth + 1 } := by
          cases entry : Frame.enter owner index arguments with
          | ok _ =>
            rw [entry] at made
            cases made
            rfl
          | error _ =>
            rw [entry] at made
            cases made
        rw [same]
        refine ⟨?_, List.forall_mem_cons.mpr ⟨atCall, inOrder.waiting⟩⟩
        have counted : callers.length < machine.depth := inOrder.counted
        exact Nat.succ_lt_succ counted

/-- **Each instruction keeps a chain in order.** -/
theorem inOrder_of_advance {chain' : Chain} (inOrder : chain.InOrder machine)
    (advances : Advances services (chain, machine) (chain', after)) : chain'.InOrder after := by
  obtain ⟨frame, callers⟩ := chain
  change advance ⟨frame, callers⟩ services machine = .ok (.running chain') after at advances
  have kept := uniform_compositional.step_instruction services services agree
    ⟨machine, frame, frame.pc⟩
  unfold advance at advances
  dsimp only at advances
  cases ended : Step.instruction services ⟨machine, frame, frame.pc⟩ with
  | ok next state =>
    rw [ended] at advances kept
    have depth : state.machine.depth = machine.depth := kept.of_ok
    cases next with
    | proceed =>
      cases advances
      exact inOrder.of_same depth
    | call owner index arguments =>
      dsimp only at advances
      obtain ⟨called, middle, calls, goes⟩ := exists_of_bind_ok advances
      cases goes
      have atCall : Frame.AtCall { state.frame with resumePc := state.cursor } :=
        Step.atCall_of_instruction ended
      exact inOrder_of_call agree (inOrder.of_same depth) atCall calls
    | finish result =>
      obtain ⟨_, middle, left, finishes⟩ := exists_of_bind_ok advances
      cases left
      cases callers with
      | nil => cases finishes
      | cons caller rest =>
        obtain ⟨other, middle', placed, goes⟩ := exists_of_bind_ok finishes
        obtain rfl := onFrame_eq_ok placed
        cases goes
        exact (inOrder.of_caller caller).of_same (congrArg (· - 1) depth)
  | error interruption state =>
    rw [ended] at advances kept
    cases interruption with
    | thrown exception =>
      have depth : state.machine.depth = machine.depth := kept.of_thrown
      dsimp only at advances
      obtain ⟨unwound, middle, unwinds, goes⟩ := exists_of_bind_ok advances
      cases goes
      exact inOrder_of_unwind agree (inOrder.of_same depth) unwinds
    | fatal error => cases advances
    | outOfFuel => cases advances

theorem inOrder_of_reached {chain' : Chain} (inOrder : chain.InOrder machine)
    (reached : ReflTransGen (Advances services) (chain, machine) (chain', after)) :
    chain'.InOrder after := by
  suffices ∀ next, ReflTransGen (Advances services) (chain, machine) next →
      next.1.InOrder next.2 from this _ reached
  intro next reached
  induction reached with
  | refl => exact inOrder
  | tail _ advances ih => exact inOrder_of_advance agree ih advances

end Steps

/-! ## Errors -/

section Errors

variable {services : Services} {machine after : Machine} {chain : Chain} {error : Error}

/-- The next instruction of a chain fails with an error: by itself, because the native or abstract
method that it calls does, because too many calls are in progress for another one, or because the
caller has no room for what is returned. -/
inductive Fails (services : Services) (chain : Chain) (machine : Machine) (error : Error) :
    Machine → Prop where
  | instruction {state : StepState}
      (ended : Step.instruction services ⟨machine, chain.frame, chain.frame.pc⟩ =
        .error (.fatal error) state) : Fails services chain machine error state.machine
  | call {state : StepState} {owner : LinkedClass} {index : Nat} {arguments : List Value}
      {method : Method} {after : Machine}
      (ended : Step.instruction services ⟨machine, chain.frame, chain.frame.pc⟩ =
        .ok (.call owner index arguments) state)
      (found : owner.method? index = some method) (bodiless : method.isBodiless = true)
      (failed : services.invoke owner index arguments state.machine = .error (.fatal error) after) :
      Fails services chain machine error after
  | depth {state : StepState} {owner : LinkedClass} {index : Nat} {arguments : List Value}
      {method : Method}
      (ended : Step.instruction services ⟨machine, chain.frame, chain.frame.pc⟩ =
        .ok (.call owner index arguments) state)
      (found : owner.method? index = some method) (bodied : ¬ method.isBodiless = true)
      (deep : services.limits.callDepth ≤ state.machine.depth)
      (same : error = .virtualMachine (.callDepth services.limits.callDepth)) :
      Fails services chain machine error state.machine
  | result {state : StepState} {result : Option Value} {caller left : Frame} {rest : List Frame}
      (ended : Step.instruction services ⟨machine, chain.frame, chain.frame.pc⟩ =
        .ok (.finish result) state)
      (callers : chain.callers = caller :: rest)
      (full : Frame.resume result caller = .error error left) :
      Fails services chain machine error
        { state.machine with depth := state.machine.depth - 1 }

/-- An error ends the run, in whatever frames it occurs. -/
theorem advance_of_fails (fails : Fails services chain machine error after) :
    advance chain services machine = .error (.fatal error) after := by
  obtain ⟨frame, callers⟩ := chain
  unfold advance
  dsimp only
  cases fails with
  | instruction ended => rw [ended]
  | call ended found bodiless failed =>
    rw [ended]
    apply Operation.bind_of_error
    unfold call
    simp only [found, if_pos bodiless]
    unfold callBodiless
    rw [failed]
  | depth ended found bodied deep same =>
    rw [ended]
    apply Operation.bind_of_error
    unfold call
    simp only [found, if_neg bodied]
    apply Operation.bind_of_error
    rw [enter_eq, if_pos deep, same]
  | @result state result caller _ rest ended waiting full =>
    have left : leave services state.machine =
        .ok () { state.machine with depth := state.machine.depth - 1 } := rfl
    have unanswered (machine : Machine) :
        onFrame (Frame.resume result) caller services machine = .error (.fatal error) machine := by
      unfold onFrame
      rw [full]
      rfl
    obtain rfl : callers = caller :: rest := waiting
    rw [ended]
    exact (Operation.bind_of_ok left).trans (Operation.bind_of_error (unanswered _))

theorem run_of_advances {fuel : Nat} {before next : Chain × Machine}
    (advances : Advances services before next) :
    run (fuel + 1) before.1 services before.2 = run fuel next.1 services next.2 := by
  rw [run]
  exact Operation.bind_of_ok advances

theorem run_of_reached {before next : Chain × Machine}
    (reached : ReflTransGen (Advances services) before next) :
    ∃ steps, ∀ fuel, run (fuel + steps) before.1 services before.2 =
      run fuel next.1 services next.2 := by
  induction reached using ReflTransGen.head_induction_on with
  | refl => exact ⟨0, fun _ => rfl⟩
  | head advances _ ih =>
    obtain ⟨steps, same⟩ := ih
    exact ⟨steps + 1, fun fuel => (run_of_advances advances).trans (same fuel)⟩

/-- What fails after some steps fails the run, however many steps are allowed in addition. -/
theorem run_of_fails {begun : Chain} {started : Machine}
    (reached : ReflTransGen (Advances services) (begun, started) (chain, machine))
    (fails : Fails services chain machine error after) :
    ∃ steps, ∀ fuel, run (fuel + steps) begun services started = .error (.fatal error) after := by
  obtain ⟨steps, same⟩ := run_of_reached reached
  refine ⟨1 + steps, fun fuel => ?_⟩
  rw [← Nat.add_assoc, same, run]
  exact Operation.bind_of_error (advance_of_fails fails)

end Errors

/-! ## Throwables -/

/-- Where an object goes that is thrown inside some frames: to the innermost one that handles what
its class throws, at the first handler that does. The frame keeps its locals and its callers and
holds the object only; those inside it end. If no frame handles it, all end and the object is thrown
on. Classes may be loaded on the way, and nothing else happens. -/
structure Dispatches (services : Services) (machine : Machine) (exception : Ref) (frame : Frame)
    (callers : List Frame) : Prop where
  decided : (∃ inner handling outer handler, frame :: callers = inner ++ handling :: outer ∧
      (∀ passed ∈ inner, passed.Passes services.sources (machine.heap.get exception).type) ∧
      handling.Handles services.sources (machine.heap.get exception).type handler) ∨
    ∀ passed ∈ frame :: callers,
      passed.Passes services.sources (machine.heap.get exception).type
  caught {inner outer : List Frame} {handling : Frame} {handler : Handler}
    (frames : frame :: callers = inner ++ handling :: outer)
    (passes : ∀ passed ∈ inner,
      passed.Passes services.sources (machine.heap.get exception).type)
    (handles : handling.Handles services.sources (machine.heap.get exception).type handler)
    (room : 1 ≤ handling.code.maxStack) :
    ∃ loaded, services.Loads machine.loaded loaded ∧
      unwind exception frame callers services machine =
        .ok ⟨{ handling with stack := #[.reference (some exception)], pc := handler.target }, outer⟩
          { machine with loaded, depth := machine.depth - inner.length }
  uncaught
    (passes : ∀ passed ∈ frame :: callers,
      passed.Passes services.sources (machine.heap.get exception).type) :
    ∃ loaded, services.Loads machine.loaded loaded ∧
      unwind exception frame callers services machine = .error (.thrown exception)
        { machine with loaded, depth := machine.depth - (frame :: callers).length }

theorem Execution.Throws.dispatches {services : Services} (sourced : services.Sourced)
    {machine : Machine} {exception : Ref} {frame : Frame} {callers : List Frame}
    (throws : Throws services machine exception (frame :: callers)) :
    Dispatches services machine exception frame callers := by
  have defined := (throws.reachable.sound _ _ throws.thrown).2.1
  have loadable (each : Frame) (member : each ∈ frame :: callers) :
      Loadable services each.code.handlers := by
    intro handler among name typed
    obtain ⟨c, loaded, ended⟩ := throws.loadable each member handler among name typed
    obtain ⟨-, -, named, classDefined, -⟩ := (throws.reachable.sound.after_load name).1 c loaded ended
    exact ⟨c, classDefined, named⟩
  exact {
    decided := Frame.exists_first_or_passes _ _ _
    caught := fun frames passes handles room =>
      unwind_of_handles sourced defined throws.reachable rfl loadable frames passes handles room
    uncaught := fun passes =>
      unwind_of_passes sourced defined throws.reachable rfl loadable passes }

/-- A machine with the built-in classes and native methods. -/
def plainSetup : Setup where
  sources := [Loader.builtinClasses]
  limits := {}
  stringClass := default
  natives := Native.table

/-- A machine with a string, while a call is in progress inside another one. -/
def stringMachine (loaded : LoadedClasses) (stringClass : LinkedClass) : Machine where
  loaded
  heap := ⟨#[⟨stringClass, .text "thrown"⟩]⟩
  depth := 2

/-- A frame at an offset of a method with handlers. -/
def frameAt (pc : Nat) (handlers : List Handler) : Frame where
  owner := default
  method := default
  code := ⟨1, 1, #[], handlers⟩
  pc
  resumePc := 0
  locals := #[.int 7]
  stack := #[.int 1]

theorem exists_stringClass :
    ∃ c, (Loader.stringsOf Loader.builtinClasses).lookup ClassName.string = some c := by
  have listed : ClassName.string ∈ (Loader.stringsOf Loader.builtinClasses).map Prod.fst := by
    rw [Loader.names_stringsOf_builtinClasses]
    exact List.mem_cons_of_mem _ List.mem_cons_self
  cases found : (Loader.stringsOf Loader.builtinClasses).lookup ClassName.string with
  | some c => exact ⟨c, rfl⟩
  | none =>
    obtain ⟨entry, member, named⟩ := List.mem_map.mp listed
    have missing := List.lookup_eq_none_iff.mp found entry member
    rw [named, bne_self_eq_false] at missing
    cases missing

theorem sourced_plainSetup : (plainSetup.services 0).Sourced where
  builtin := ⟨Loader.builtinClasses, [], Loader.source_eq_builtinClasses, rfl⟩
  hosts lookup size member := by
    have same := List.mem_singleton.mp member
    have built := Loader.source_eq_builtinClasses
    rw [← same, Builtin.source, Except.bind_eq_ok_iff] at built
    obtain ⟨files, -, clash⟩ := built
    cases clash

end JavaMachine
