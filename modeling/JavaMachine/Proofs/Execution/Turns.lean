import JavaMachine.Proofs.Execution.Throwing
import JavaMachine.Proofs.Instruction.Blame

/-! # What an instruction makes of a chain

An instruction that leaves a chain running goes on in its frame, enters a method, hands the result
of a call to the frame that has made it, or lets a frame go on at one of its handlers
(`Chain.turns_of_advances`). In as many ways the operand stack of a frame may be found full
(`Chain.FindsFull`): that is what an error of a full stack comes from, unless it is that of a call
outside of the chain, or of a source of classes (`Chain.findsFull_of_advance`). -/

namespace JavaMachine

open Execution (advance call callBodiless enter finish findHandler leave onFrame unwind)
open Operation (bind_of_ok bind_of_error exists_of_bind_ok)

namespace Execution

variable {services : Services} {machine after : Machine} {frame : Frame} {callers : List Frame}
  {exception : Ref} {chain : Chain} {error : Error}

/-! ## Throwables that find a handler -/

/-- A search for a handler fails as loading a catch type does, finds none, or finds one of those
that are searched. -/
theorem findHandler_cases (pc : Nat) (thrown : LinkedClass) (handlers : List Handler)
    (services : Services) (machine : Machine) :
    (∃ error left, findHandler pc thrown handlers services machine = .error (.fatal error) left ∧
      services.LoadsWith error) ∨
    (∃ left, findHandler pc thrown handlers services machine = .ok none left) ∨
    ∃ handler ∈ handlers, ∃ left,
      findHandler pc thrown handlers services machine = .ok (some handler.target) left := by
  induction handlers generalizing machine with
  | nil => exact .inr (.inl ⟨machine, rfl⟩)
  | cons handler rest ih =>
    have onward {result : EStateM.Result Interruption Machine (Option Nat)}
        (found : (∃ error left, result = .error (.fatal error) left ∧ services.LoadsWith error) ∨
          (∃ left, result = .ok none left) ∨
          ∃ handler ∈ rest, ∃ left, result = .ok (some handler.target) left) :
        (∃ error left, result = .error (.fatal error) left ∧ services.LoadsWith error) ∨
          (∃ left, result = .ok none left) ∨
          ∃ other ∈ handler :: rest, ∃ left, result = .ok (some other.target) left := by
      refine found.imp_right fun found => found.imp_right ?_
      rintro ⟨other, member, found⟩
      exact ⟨other, List.mem_cons_of_mem handler member, found⟩
    rw [findHandler]
    split
    · exact onward (ih machine)
    · cases handler.catchType with
      | none => exact .inr (.inr ⟨handler, List.mem_cons_self, machine, rfl⟩)
      | some name =>
        simp only [Bind.bind, ReaderT.bind, EStateM.bind, Exec.load]
        cases loaded : Loader.load services.sources name machine.loaded with
        | error error left => exact .inl ⟨error, _, rfl, _, _, _, loaded⟩
        | ok caught left =>
          dsimp only
          split
          · exact .inr (.inr ⟨handler, List.mem_cons_self, _, rfl⟩)
          · exact onward (ih _)

/-- A throwable that is offered to a frame ends as loading a catch type does, goes on at a handler
of the frame, or is passed on. -/
theorem offering_cases {α : Type} (exception : Ref) (frame : Frame) (found : Frame → Exec α)
    (ended : Exec α) (services : Services) (machine : Machine) :
    (∃ error left, Chain.offering exception frame found ended services machine =
        .error (.fatal error) left ∧ services.LoadsWith error) ∨
    (∃ left, Chain.offering exception frame found ended services machine = ended services left) ∨
    ∃ handler ∈ frame.code.handlers, ∃ left,
      Chain.offering exception frame found ended services machine =
        (do found (← onFrame (Frame.catchAt handler.target exception) frame) : Exec α)
          services left := by
  have object : Exec.object exception services machine = .ok (machine.heap.get exception) machine :=
    rfl
  unfold Chain.offering
  rw [bind_of_ok object]
  rcases findHandler_cases frame.pc (machine.heap.get exception).type frame.code.handlers services
    machine with ⟨error, left, failed, loads⟩ | ⟨left, none⟩ | ⟨handler, member, left, found⟩
  · exact .inl ⟨error, left, bind_of_error failed, loads⟩
  · exact .inr (.inl ⟨_, bind_of_ok none⟩)
  · exact .inr (.inr ⟨handler, member, left, bind_of_ok found⟩)

theorem onFrame_of_ok {operation : FrameM Unit} {left : Frame}
    (operated : operation frame = .ok () left) :
    onFrame operation frame services machine = .ok left machine := by
  unfold onFrame
  rw [operated]
  rfl

theorem onFrame_of_error {operation : FrameM Unit} {left : Frame}
    (operated : operation frame = .error error left) :
    onFrame operation frame services machine = .error (.fatal error) machine := by
  unfold onFrame
  rw [operated]
  rfl

/-- What goes on after an operation on a frame goes on with the frame that the operation leaves. -/
theorem exists_of_onFrame {α : Type} {operation : FrameM Unit} {next : Frame → α} {value : α}
    (ended : (do return next (← onFrame operation frame) : Exec α) services machine =
      .ok value after) : ∃ left, operation frame = .ok () left ∧ value = next left := by
  cases operated : operation frame with
  | ok _ left =>
    refine ⟨left, rfl, ?_⟩
    have goes := ended.symm.trans (bind_of_ok (onFrame_of_ok operated))
    cases goes
    rfl
  | error error left => cases ended.symm.trans (bind_of_error (onFrame_of_error operated))

theorem exists_of_onFrame_error {α : Type} {operation : FrameM Unit} {next : Frame → α}
    (ended : (do return next (← onFrame operation frame) : Exec α) services machine =
      .error (.fatal error) after) : ∃ left, operation frame = .error error left := by
  cases operated : operation frame with
  | ok _ left => cases ended.symm.trans (bind_of_ok (onFrame_of_ok operated))
  | error other left =>
    cases ended.symm.trans (bind_of_error (onFrame_of_error operated))
    exact ⟨left, rfl⟩

/-- A chain through which a throwable unwinds goes on at a handler of one of its frames. -/
theorem exists_of_unwind
    (ended : unwind exception frame callers services machine = .ok chain after) :
    ∃ inner handling, frame :: callers = inner ++ handling :: chain.callers ∧
      ∃ handler ∈ handling.code.handlers,
        Frame.catchAt handler.target exception handling = .ok () chain.frame := by
  induction callers generalizing frame machine with
  | nil =>
    rw [Chain.unwind_nil] at ended
    rcases offering_cases exception frame _ _ services machine with
      ⟨error, left, failed, -⟩ | ⟨left, passed⟩ | ⟨handler, member, left, found⟩
    · cases failed.symm.trans ended
    · cases passed.symm.trans ended
    · obtain ⟨next, caught, rfl⟩ := exists_of_onFrame (found.symm.trans ended)
      exact ⟨[], frame, rfl, handler, member, caught⟩
  | cons caller rest ih =>
    rw [Chain.unwind_cons] at ended
    rcases offering_cases exception frame _ _ services machine with
      ⟨error, left, failed, -⟩ | ⟨left, passed⟩ | ⟨handler, member, left, found⟩
    · cases failed.symm.trans ended
    · obtain ⟨inner, handling, frames, handled⟩ := ih (passed.symm.trans ended)
      exact ⟨frame :: inner, handling, congrArg _ frames, handled⟩
    · obtain ⟨next, caught, rfl⟩ := exists_of_onFrame (found.symm.trans ended)
      exact ⟨[], frame, rfl, handler, member, caught⟩

/-- A throwable that cannot be handled could not be put on the stack of a frame with a handler for
it, or a catch type could not be loaded. -/
theorem exists_of_unwind_error
    (ended : unwind exception frame callers services machine = .error (.fatal error) after) :
    services.LoadsWith error ∨
      ∃ inner handling outer, frame :: callers = inner ++ handling :: outer ∧
        ∃ handler ∈ handling.code.handlers,
          ∃ left, Frame.catchAt handler.target exception handling = .error error left := by
  induction callers generalizing frame machine with
  | nil =>
    rw [Chain.unwind_nil] at ended
    rcases offering_cases exception frame _ _ services machine with
      ⟨error, left, failed, loads⟩ | ⟨left, passed⟩ | ⟨handler, member, left, found⟩
    · cases failed.symm.trans ended
      exact .inl loads
    · cases passed.symm.trans ended
    · exact .inr ⟨[], frame, [], rfl, handler, member,
        exists_of_onFrame_error (found.symm.trans ended)⟩
  | cons caller rest ih =>
    rw [Chain.unwind_cons] at ended
    rcases offering_cases exception frame _ _ services machine with
      ⟨error, left, failed, loads⟩ | ⟨left, passed⟩ | ⟨handler, member, left, found⟩
    · cases failed.symm.trans ended
      exact .inl loads
    · refine (ih (passed.symm.trans ended)).imp_right ?_
      rintro ⟨inner, handling, outer, frames, handled⟩
      exact ⟨frame :: inner, handling, outer, congrArg _ frames, handled⟩
    · exact .inr ⟨[], frame, caller :: rest, rfl, handler, member,
        exists_of_onFrame_error (found.symm.trans ended)⟩

end Execution

namespace Chain

/-! ## Instructions that leave a chain running -/

/-- What the next instruction of a chain makes of it. -/
inductive Turns (services : Services) (machine : Machine) : Chain → Chain → Prop where
  /-- The frame goes on. -/
  | proceeds {frame : Frame} {callers : List Frame} {after : StepState}
      (ended : Step.instruction services ⟨machine, frame, frame.pc⟩ = .ok .proceed after) :
      Turns services machine ⟨frame, callers⟩ ⟨{ after.frame with pc := after.cursor }, callers⟩
  /-- A method is entered, and the frame waits for it. -/
  | enters {frame callee : Frame} {callers : List Frame} {owner : LinkedClass} {index : Nat}
      {arguments : List Value} {after : StepState}
      (ended : Step.instruction services ⟨machine, frame, frame.pc⟩ =
        .ok (.call owner index arguments) after) :
      Turns services machine ⟨frame, callers⟩
        ⟨callee, { after.frame with resumePc := after.cursor } :: callers⟩
  /-- A method without code is called, and the frame goes on with its result. -/
  | answered {frame next : Frame} {callers : List Frame} {owner : LinkedClass} {index : Nat}
      {arguments : List Value} {result : Option Value} {after : StepState} {left : Machine}
      (ended : Step.instruction services ⟨machine, frame, frame.pc⟩ =
        .ok (.call owner index arguments) after)
      (answer : services.invoke owner index arguments after.machine = .ok result left)
      (resumed : Frame.resume result { after.frame with resumePc := after.cursor } = .ok () next) :
      Turns services machine ⟨frame, callers⟩ ⟨next, callers⟩
  /-- The frame ends, and its caller goes on with the result. -/
  | finished {frame caller next : Frame} {callers : List Frame} {result : Option Value}
      {after : StepState}
      (ended : Step.instruction services ⟨machine, frame, frame.pc⟩ = .ok (.finish result) after)
      (resumed : Frame.resume result caller = .ok () next) :
      Turns services machine ⟨frame, caller :: callers⟩ ⟨next, callers⟩
  /-- Something is thrown, and a frame goes on at one of its handlers. -/
  | caught {frame thrown handling next : Frame} {callers inner outer : List Frame}
      {handler : Handler} {exception : Ref} (owner : thrown.owner = frame.owner)
      (code : thrown.code = frame.code) (frames : thrown :: callers = inner ++ handling :: outer)
      (handles : handler ∈ handling.code.handlers)
      (caught : Frame.catchAt handler.target exception handling = .ok () next) :
      Turns services machine ⟨frame, callers⟩ ⟨next, outer⟩

variable {services : Services} {machine after : Machine} {frame thrown : Frame}
  {callers : List Frame} {chain chain' : Chain} {exception : Ref} {error : Error}

theorem turns_of_unwind {left : Machine}
    (ended : unwind exception thrown callers services left = .ok chain after)
    (owner : thrown.owner = frame.owner) (code : thrown.code = frame.code) :
    Turns services machine ⟨frame, callers⟩ chain := by
  obtain ⟨inner, handling, frames, handler, member, caught⟩ := Execution.exists_of_unwind ended
  exact .caught owner code frames member caught

/-- An instruction leaves its frame at its place, however it ends. -/
theorem samePlace_of_instruction {result : EStateM.Result Interruption StepState Next}
    (ended : Step.instruction services ⟨machine, frame, frame.pc⟩ = result) :
    frame.SamePlace (endState result).frame := by
  rw [← ended]
  exact (Step.keeps_instruction services ⟨machine, frame, frame.pc⟩).place

theorem turns_of_call {owner : LinkedClass} {index : Nat} {arguments : List Value}
    {state : StepState}
    (ended : Step.instruction services ⟨machine, frame, frame.pc⟩ =
      .ok (.call owner index arguments) state)
    (called : call owner index arguments { state.frame with resumePc := state.cursor } callers
      services state.machine = .ok chain after) :
    Turns services machine ⟨frame, callers⟩ chain := by
  have same := samePlace_of_instruction ended
  unfold call at called
  cases found : owner.method? index with
  | none =>
    rw [found] at called
    cases called
  | some method =>
    simp only [found] at called
    split at called
    · rw [Chain.callBodiless_eq_attempt] at called
      unfold Exec.attempt Exec.invoke at called
      cases invoked : services.invoke owner index arguments state.machine with
      | ok result left =>
        rw [invoked] at called
        obtain ⟨next, resumed, rfl⟩ := Execution.exists_of_onFrame called
        exact .answered ended invoked resumed
      | error interruption left =>
        rw [invoked] at called
        cases interruption with
        | thrown exception =>
          have unwound : unwind exception { state.frame with resumePc := state.cursor } callers
              services left = .ok chain after := called
          exact turns_of_unwind unwound same.owner same.code
        | fatal error => cases called
        | outOfFuel => cases called
    · obtain ⟨_, _, -, called⟩ := exists_of_bind_ok called
      obtain ⟨callee, _, -, called⟩ := exists_of_bind_ok called
      cases called
      exact .enters ended

/-- **An instruction turns a chain in one of these ways.** -/
theorem turns_of_advances (advances : Advances services (chain, machine) (chain', after)) :
    Turns services machine chain chain' := by
  obtain ⟨frame, callers⟩ := chain
  change advance ⟨frame, callers⟩ services machine = .ok (.running chain') after at advances
  unfold advance at advances
  dsimp only at advances
  cases ended : Step.instruction services ⟨machine, frame, frame.pc⟩ with
  | ok next state =>
    rw [ended] at advances
    cases next with
    | proceed =>
      cases advances
      exact .proceeds ended
    | call owner index arguments =>
      dsimp only at advances
      obtain ⟨called, _, calls, goes⟩ := exists_of_bind_ok advances
      cases goes
      exact turns_of_call ended calls
    | finish result =>
      obtain ⟨_, _, -, finishes⟩ := exists_of_bind_ok advances
      cases callers with
      | nil => cases finishes
      | cons caller rest =>
        obtain ⟨next, resumed, same⟩ := Execution.exists_of_onFrame finishes
        cases same
        exact .finished ended resumed
  | error interruption state =>
    rw [ended] at advances
    cases interruption with
    | thrown exception =>
      dsimp only at advances
      obtain ⟨unwound, _, unwinds, goes⟩ := exists_of_bind_ok advances
      cases goes
      have same := samePlace_of_instruction ended
      exact turns_of_unwind unwinds same.owner same.code
    | fatal error => cases advances
    | outOfFuel => cases advances

/-! ## Full stacks -/

/-- The next instruction of a chain finds the operand stack of a frame full: by itself, with the
result of a call that the frame has made, or with something that the frame would handle. What is
given of the frame are the frames outside of it. -/
inductive FindsFull (services : Services) (machine : Machine) : Chain → List Frame → Prop where
  | instruction {frame : Frame} {callers : List Frame} {error : Error} {after : StepState}
      (ended : Step.instruction services.silenced ⟨machine, frame, frame.pc⟩ =
        .error (.fatal error) after) (blamed : services.Blames error) :
      FindsFull services machine ⟨frame, callers⟩ callers
  | answered {frame left : Frame} {callers : List Frame} {owner : LinkedClass} {index : Nat}
      {arguments : List Value} {result : Option Value} {after : StepState} {answering : Machine}
      {error : Error}
      (ended : Step.instruction services ⟨machine, frame, frame.pc⟩ =
        .ok (.call owner index arguments) after)
      (answer : services.invoke owner index arguments after.machine = .ok result answering)
      (full : Frame.resume result { after.frame with resumePc := after.cursor } =
        .error error left) :
      FindsFull services machine ⟨frame, callers⟩ callers
  | finished {frame caller left : Frame} {callers : List Frame} {result : Option Value}
      {after : StepState} {error : Error}
      (ended : Step.instruction services ⟨machine, frame, frame.pc⟩ = .ok (.finish result) after)
      (full : Frame.resume result caller = .error error left) :
      FindsFull services machine ⟨frame, caller :: callers⟩ callers
  | caught {frame thrown handling left : Frame} {callers inner outer : List Frame}
      {handler : Handler} {exception : Ref} {error : Error} (owner : thrown.owner = frame.owner)
      (code : thrown.code = frame.code) (frames : thrown :: callers = inner ++ handling :: outer)
      (handles : handler ∈ handling.code.handlers)
      (full : Frame.catchAt handler.target exception handling = .error error left) :
      FindsFull services machine ⟨frame, callers⟩ outer

theorem not_isOverflow_enter {owner : LinkedClass} {index : Nat} {arguments : List Value}
    (failed : Frame.enter owner index arguments = .error error) : ¬ error.IsOverflow := by
  rintro ⟨site, limit, rfl⟩
  unfold Frame.enter at failed
  split at failed
  · cases failed
  · dsimp only at failed
    split at failed
    · cases failed
    · split at failed <;> cases failed

theorem findsFull_of_unwind {left : Machine}
    (ended : unwind exception thrown callers services left = .error (.fatal error) after)
    (owner : thrown.owner = frame.owner) (code : thrown.code = frame.code) :
    services.LoadsWith error ∨ ∃ outer, FindsFull services machine ⟨frame, callers⟩ outer :=
  (Execution.exists_of_unwind_error ended).imp_right
    fun ⟨_, _, outer, frames, _, member, _, full⟩ => ⟨outer, .caught owner code frames member full⟩

/-- The error of a full stack with which a call ends is that of a call outside of the chain, unless
it comes from the chain. -/
theorem findsFull_of_call {owner : LinkedClass} {index : Nat} {arguments : List Value}
    {state : StepState} (overflow : error.IsOverflow)
    (ended : Step.instruction services ⟨machine, frame, frame.pc⟩ =
      .ok (.call owner index arguments) state)
    (called : call owner index arguments { state.frame with resumePc := state.cursor } callers
      services state.machine = .error (.fatal error) after) :
    services.LoadsWith error ∨
      call owner index arguments { state.frame with resumePc := state.cursor } callers
        services.silenced state.machine = .error .outOfFuel after ∨
      ∃ outer, FindsFull services machine ⟨frame, callers⟩ outer := by
  have same := samePlace_of_instruction ended
  unfold call at called ⊢
  cases found : owner.method? index with
  | none =>
    rw [found] at called
    cases called
    exact absurd overflow (Exec.not_isOverflow_of_ne nofun)
  | some method =>
    simp only [found] at called ⊢
    split at called
    · next bodiless =>
      rw [if_pos bodiless]
      rw [Chain.callBodiless_eq_attempt] at called
      unfold Exec.attempt Exec.invoke at called
      cases invoked : services.invoke owner index arguments state.machine with
      | ok result left =>
        rw [invoked] at called
        obtain ⟨_, full⟩ := Execution.exists_of_onFrame_error called
        exact .inr (.inr ⟨_, .answered ended invoked full⟩)
      | error interruption left =>
        rw [invoked] at called
        cases interruption with
        | thrown exception =>
          have unwound : unwind exception { state.frame with resumePc := state.cursor } callers
              services left = .error (.fatal error) after := called
          exact (findsFull_of_unwind unwound same.owner same.code).imp_right .inr
        | fatal error =>
          cases called
          obtain ⟨site, limit, rfl⟩ := overflow
          have silenced : services.silenced.invoke owner index arguments state.machine =
              .error .outOfFuel after := by
            change hush (services.invoke owner index arguments state.machine) = _
            rw [invoked]
            rfl
          refine .inr (.inl ?_)
          unfold callBodiless
          rw [silenced]
        | outOfFuel => cases called
    · cases entered : enter services state.machine with
      | error interruption left =>
        cases (bind_of_error entered).symm.trans called
        rw [enter_eq] at entered
        split at entered
        · cases entered
          exact absurd overflow (Exec.not_isOverflow_of_ne nofun)
        · cases entered
      | ok value left =>
        have called := (bind_of_ok entered).symm.trans called
        cases made : Frame.enter owner index arguments with
        | ok callee =>
          rw [made] at called
          cases called
        | error other =>
          rw [made] at called
          cases called
          exact absurd overflow (not_isOverflow_enter made)

/-- **An error of a full stack is that of a source of classes, or of a call outside of the chain, or
the stack of a frame of the chain has been found full.** -/
theorem findsFull_of_advance (overflow : error.IsOverflow)
    (failed : advance chain services machine = .error (.fatal error) after) :
    services.LoadsWith error ∨
      advance chain services.silenced machine = .error .outOfFuel after ∨
      ∃ outer, FindsFull services machine chain outer := by
  obtain ⟨frame, callers⟩ := chain
  have hushes := Step.hushed_instruction services ⟨machine, frame, frame.pc⟩
  unfold advance at failed ⊢
  dsimp only at failed ⊢
  generalize silenced :
    Step.instruction services.silenced ⟨machine, frame, frame.pc⟩ = result' at hushes
  generalize ended : Step.instruction services ⟨machine, frame, frame.pc⟩ = result at hushes
  rw [ended] at failed
  cases hushes with
  | full other =>
    cases failed
    exact .inr (.inl rfl)
  | same =>
    cases result' with
    | ok next state =>
      cases next with
      | proceed => cases failed
      | call owner index arguments =>
        dsimp only at failed
        cases called : call owner index arguments
            { state.frame with resumePc := state.cursor } callers services state.machine with
        | ok chain left => cases (bind_of_ok called).symm.trans failed
        | error interruption left =>
          cases (bind_of_error called).symm.trans failed
          refine (findsFull_of_call overflow ended called).imp_right fun elsewhere =>
            elsewhere.imp_left fun hidden => ?_
          exact bind_of_error hidden
      | finish result =>
        have left : leave services state.machine = .ok () _ := rfl
        have failed := (bind_of_ok left).symm.trans failed
        cases callers with
        | nil => cases failed
        | cons caller rest =>
          obtain ⟨_, full⟩ := Execution.exists_of_onFrame_error failed
          exact .inr (.inr ⟨rest, .finished ended full⟩)
    | error interruption state =>
      cases interruption with
      | thrown exception =>
        dsimp only at failed
        have same := samePlace_of_instruction ended
        cases unwound : unwind exception state.frame callers services state.machine with
        | ok chain left => cases (bind_of_ok unwound).symm.trans failed
        | error interruption left =>
          cases (bind_of_error unwound).symm.trans failed
          exact (findsFull_of_unwind unwound same.owner same.code).imp_right .inr
      | fatal other =>
        cases failed
        by_cases loads : services.LoadsWith error
        · exact .inl loads
        · exact .inr (.inr ⟨callers, .instruction silenced ⟨overflow, loads⟩⟩)
      | outOfFuel => cases failed

end Chain

end JavaMachine
