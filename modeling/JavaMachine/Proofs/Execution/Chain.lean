import JavaMachine.Proofs.Execution.Nested

/-! # Chains of frames

What a chain of frames does does not depend on the frames that wait outside of it, until it ends:
with a result, which the next frame outside takes, or with a throwable, which is offered to that
frame. -/

namespace JavaMachine

open Execution (enter leave onFrame findHandler unwind Progress callBodiless call finish advance
  run)

/-! ## Attempts -/

namespace Exec

variable {α β γ : Type}

/-- Goes on with what an action gives, or with what it throws. -/
def attempt (action : Exec α) (next : α → Exec β) (handle : Ref → Exec β) : Exec β :=
  fun services machine =>
    match action services machine with
    | .ok value machine => next value services machine
    | .error (.thrown exception) machine => handle exception services machine
    | .error interruption machine => .error interruption machine

/-- An action that throws nothing. -/
def Silent (action : Exec α) : Prop :=
  ∀ services machine exception after, action services machine ≠ .error (.thrown exception) after

variable {action : Exec α} {next : α → Exec β} {handle : Ref → Exec β}

theorem attempt_bind (rest : β → Exec γ) :
    (attempt action next handle >>= rest) =
      attempt action (fun value => next value >>= rest) fun exception =>
        handle exception >>= rest := by
  funext services machine
  simp only [attempt, Bind.bind, ReaderT.bind, EStateM.bind]
  cases action services machine with
  | ok value after => rfl
  | error interruption after => cases interruption <;> rfl

theorem attempt_attempt {δ : Type} (last : β → Exec δ) (rescue : Ref → Exec δ) :
    attempt (attempt action next handle) last rescue =
      attempt action (fun value => attempt (next value) last rescue) fun exception =>
        attempt (handle exception) last rescue := by
  funext services machine
  simp only [attempt]
  cases action services machine with
  | ok value after => rfl
  | error interruption after => cases interruption <;> rfl

theorem attempt_map (f : γ → α) (action : Exec γ) :
    attempt (do return f (← action)) next handle =
      attempt action (fun value => next (f value)) handle := by
  funext services machine
  simp only [attempt, Bind.bind, ReaderT.bind, EStateM.bind]
  cases action services machine with
  | ok value after => rfl
  | error interruption after => cases interruption <;> rfl

/-- What throws nothing is done before an attempt as well as in it. -/
theorem Silent.bind_attempt {first : Exec γ} (silent : first.Silent) {rest : γ → Exec α} :
    attempt (first >>= rest) next handle =
      (first >>= fun value => attempt (rest value) next handle) := by
  funext services machine
  simp only [attempt, Bind.bind, ReaderT.bind, EStateM.bind]
  cases ended : first services machine with
  | ok value after => rfl
  | error interruption after =>
    cases interruption with
    | thrown exception => exact (silent _ _ _ _ ended).elim
    | fatal error => rfl
    | outOfFuel => rfl

theorem silent_pure (value : α) : Silent (pure value : Exec α) :=
  fun _ _ _ _ => nofun

theorem silent_fail (error : Error) : Silent (fail error : Exec α) :=
  fun _ _ _ _ => nofun

theorem silent_modify (change : Machine → Machine) : Silent (modify change) :=
  fun _ _ _ _ => nofun

theorem Silent.bind (first : action.Silent) (rest : ∀ value, (next value).Silent) :
    (action >>= next).Silent := by
  intro services machine exception after
  simp only [Bind.bind, ReaderT.bind, EStateM.bind]
  cases ended : action services machine with
  | ok value middle => exact rest value services middle exception after
  | error interruption middle =>
    rintro ⟨⟩
    exact first _ _ _ _ ended

theorem silent_object (ref : Ref) : Silent (object ref) :=
  fun _ _ _ _ => nofun

theorem silent_load (name : String) : Silent (load name) := by
  intro services machine exception after
  unfold load
  cases Loader.load services.sources name machine.loaded with
  | ok c loaded => exact nofun
  | error error loaded => exact nofun

theorem silent_ofExcept (result : Except Error α) : Silent (ofExcept result) := by
  cases result with
  | ok value => exact silent_pure value
  | error error => exact silent_fail error

theorem silent_onFrame (operation : FrameM Unit) (frame : Frame) :
    Silent (onFrame operation frame) := by
  unfold onFrame
  split
  · exact silent_pure _
  · exact silent_fail _

theorem silent_enter : Silent enter := by
  intro services machine exception after
  rw [enter_eq]
  split
  · exact nofun
  · exact nofun

theorem silent_findHandler (pc : Nat) (thrown : LinkedClass) (handlers : List Handler) :
    Silent (findHandler pc thrown handlers) := by
  induction handlers with
  | nil => exact silent_pure _
  | cons handler rest ih =>
    rw [findHandler]
    split
    · exact ih
    · split
      · exact silent_pure _
      · refine (silent_load _).bind fun caught => ?_
        split
        · exact silent_pure _
        · exact ih

end Exec

open Exec (attempt)

/-! ## One more frame outside -/

/-- A chain with one more frame outside of it. -/
def Chain.inside (chain : Chain) (caller : Frame) : Chain :=
  ⟨chain.frame, chain.callers ++ [caller]⟩

/-- How a chain with one more frame outside goes on after an instruction: if the chain inside has
ended, with the frame that was outside of it. -/
def Execution.Progress.inside (caller : Frame) : Progress → Exec Progress
  | .running chain => return .running (chain.inside caller)
  | .finished result => do return .running ⟨← onFrame (Frame.resume result) caller, []⟩

namespace Chain

/-! ## Throwables -/

/-- Offers a throwable to a frame, which goes on if it handles it and ends if it does not. -/
def offering {α : Type} (exception : Ref) (frame : Frame) (caught : Frame → Exec α)
    (ended : Exec α) : Exec α := do
  let thrown := (← Exec.object exception).type
  match ← findHandler frame.pc thrown frame.code.handlers with
  | some target => caught (← onFrame (Frame.catchAt target exception) frame)
  | none =>
    leave
    ended

theorem offer_eq_offering (exception : Ref) (frame : Frame) :
    Nested.offer exception frame = offering exception frame pure (throw (.thrown exception)) := by
  unfold Nested.offer offering
  refine bind_congr fun object => bind_congr fun target => ?_
  cases target with
  | some target => exact (bind_pure _).symm
  | none => rfl

theorem unwind_nil (exception : Ref) (frame : Frame) :
    unwind exception frame [] =
      offering exception frame (fun frame => return ⟨frame, []⟩) (throw (.thrown exception)) := by
  rw [unwind]
  rfl

theorem unwind_cons (exception : Ref) (frame caller : Frame) (rest : List Frame) :
    unwind exception frame (caller :: rest) =
      offering exception frame (fun frame => return ⟨frame, caller :: rest⟩)
        (unwind exception caller rest) := by
  rw [unwind]
  rfl

theorem offering_bind {α β : Type} (exception : Ref) (frame : Frame) (caught : Frame → Exec α)
    (ended : Exec α) (next : α → Exec β) :
    (offering exception frame caught ended >>= next) =
      offering exception frame (fun frame => caught frame >>= next) (ended >>= next) := by
  unfold offering
  simp only [bind_assoc]
  congr 1
  funext object
  congr 1
  funext target
  cases target with
  | some target => rw [bind_assoc]
  | none => rw [bind_assoc]

theorem attempt_offering {α β : Type} (exception : Ref) (frame : Frame) (caught : Frame → Exec α)
    (ended : Exec α) (next : α → Exec β) (handle : Ref → Exec β) :
    attempt (offering exception frame caught ended) next handle =
      offering exception frame (fun frame => attempt (caught frame) next handle)
        (attempt ended next handle) := by
  unfold offering
  rw [(Exec.silent_object exception).bind_attempt]
  congr 1
  funext object
  rw [(Exec.silent_findHandler _ _ _).bind_attempt]
  congr 1
  funext target
  cases target with
  | some target => exact (Exec.silent_onFrame _ frame).bind_attempt
  | none => exact (Exec.silent_modify _).bind_attempt

/-- With one more frame outside, a throwable that is thrown out of a chain is offered to it. -/
theorem unwind_append (exception : Ref) (frame : Frame) (callers : List Frame) (caller : Frame) :
    unwind exception frame (callers ++ [caller]) =
      attempt (unwind exception frame callers) (fun chain => return chain.inside caller)
        fun exception => unwind exception caller [] := by
  induction callers generalizing frame with
  | nil =>
    rw [List.nil_append, unwind_cons, unwind_nil exception frame, attempt_offering]
    rfl
  | cons first rest ih =>
    rw [List.cons_append, unwind_cons, unwind_cons, attempt_offering, ih first]
    rfl

/-! ## Instructions -/

theorem callBodiless_eq_attempt (owner : LinkedClass) (index : Nat) (arguments : List Value)
    (frame : Frame) (callers : List Frame) :
    callBodiless owner index arguments frame callers =
      attempt (Exec.invoke owner index arguments)
        (fun result => do return ⟨← onFrame (Frame.resume result) frame, callers⟩)
        fun exception => unwind exception frame callers := by
  funext services machine
  simp only [callBodiless, attempt, Exec.invoke]
  cases services.invoke owner index arguments machine with
  | ok result after => rfl
  | error interruption after => cases interruption <;> rfl

theorem callBodiless_append (owner : LinkedClass) (index : Nat) (arguments : List Value)
    (frame : Frame) (callers : List Frame) (caller : Frame) :
    callBodiless owner index arguments frame (callers ++ [caller]) =
      attempt (callBodiless owner index arguments frame callers)
        (fun chain => return chain.inside caller) fun exception => unwind exception caller [] := by
  rw [callBodiless_eq_attempt, callBodiless_eq_attempt, Exec.attempt_attempt]
  congr 1
  · funext result
    refine Eq.trans ?_ (Exec.silent_onFrame _ frame).bind_attempt.symm
    rfl
  · funext exception
    exact unwind_append exception frame callers caller

theorem call_append (owner : LinkedClass) (index : Nat) (arguments : List Value)
    (frame : Frame) (callers : List Frame) (caller : Frame) :
    call owner index arguments frame (callers ++ [caller]) =
      attempt (call owner index arguments frame callers)
        (fun chain => return chain.inside caller) fun exception => unwind exception caller [] := by
  unfold call
  cases owner.method? index with
  | none => rfl
  | some method =>
    dsimp only
    split
    · exact callBodiless_append owner index arguments frame callers caller
    · rw [Exec.silent_enter.bind_attempt]
      congr 1
      funext _
      rw [(Exec.silent_ofExcept _).bind_attempt]
      rfl

theorem finish_append (result : Option Value) (callers : List Frame) (caller : Frame)
    (handle : Ref → Exec Progress) :
    finish result (callers ++ [caller]) =
      attempt (finish result callers) (Progress.inside caller) handle := by
  unfold finish leave
  rw [(Exec.silent_modify _).bind_attempt]
  congr 1
  funext _
  cases callers with
  | nil => rfl
  | cons first rest =>
    refine Eq.trans ?_ (Exec.silent_onFrame _ first).bind_attempt.symm
    rfl

/-- An instruction does the same with one more frame outside. -/
theorem advance_inside (chain : Chain) (caller : Frame) :
    advance (chain.inside caller) =
      attempt (advance chain) (Progress.inside caller) fun exception => do
        return .running (← unwind exception caller []) := by
  obtain ⟨frame, callers⟩ := chain
  -- Only a call and a throwable make a chain of which it is not yet known that it is one inside.
  have going {chain chain' : Exec Chain}
      (inner : chain' = attempt chain (fun chain => return chain.inside caller) fun exception =>
        unwind exception caller []) :
      (do return .running (← chain') : Exec Progress) =
        attempt (do return .running (← chain)) (Progress.inside caller) fun exception => do
          return .running (← unwind exception caller []) := by
    rw [inner, Exec.attempt_bind, Exec.attempt_map]
    rfl
  funext services machine
  simp only [advance, inside, attempt]
  cases Step.instruction services ⟨machine, frame, frame.pc⟩ with
  | ok next state =>
    obtain ⟨machine, frame, cursor⟩ := state
    cases next with
    | proceed => rfl
    | call owner index arguments =>
      have called := going (call_append owner index arguments { frame with resumePc := cursor }
        callers caller)
      exact congrFun (congrFun called services) machine
    | finish result =>
      exact congrFun (congrFun (finish_append result callers caller _) services) machine
  | error interruption state =>
    obtain ⟨machine, frame, cursor⟩ := state
    cases interruption with
    | thrown exception =>
      have unwound := going (unwind_append exception frame callers caller)
      exact congrFun (congrFun unwound services) machine
    | fatal error => rfl
    | outOfFuel => rfl

/-! ## Runs -/

/-- What is left to do after an instruction. -/
def afterwards (rest : Chain → Exec (Option Value)) : Progress → Exec (Option Value)
  | .running chain => rest chain
  | .finished result => return result

theorem run_succ (fuel : Nat) (chain : Chain) :
    run (fuel + 1) chain = advance chain >>= afterwards (run fuel) := by
  rw [run]
  rfl

theorem run_succ_inside (fuel : Nat) (chain : Chain) (caller : Frame) :
    run (fuel + 1) (chain.inside caller) =
      attempt (advance chain)
        (fun progress => progress.inside caller >>= afterwards (run fuel)) fun exception =>
          unwind exception caller [] >>= run fuel := by
  rw [run_succ, advance_inside, Exec.attempt_bind]
  simp only [bind_assoc]
  rfl

/-- A throwable that is offered to the only frame of a chain. -/
theorem unwind_bind_run (fuel : Nat) (exception : Ref) (frame : Frame) :
    unwind exception frame [] >>= run fuel =
      (do run fuel ⟨← Nested.offer exception frame, []⟩) := by
  rw [unwind_nil, offer_eq_offering, offering_bind, offering_bind]
  rfl

/-- A chain that has run out of fuel has done so whatever is outside of it. -/
theorem run_inside_outOfFuel {fuel : Nat} {chain : Chain} {services : Services}
    {machine after : Machine} (caller : Frame)
    (ended : run fuel chain services machine = .error .outOfFuel after) :
    run fuel (chain.inside caller) services machine = .error .outOfFuel after := by
  induction fuel generalizing chain machine with
  | zero => exact ended
  | succ fuel ih =>
    rw [run_succ] at ended
    rw [run_succ_inside]
    simp only [Bind.bind, ReaderT.bind, EStateM.bind, attempt] at ended ⊢
    generalize advance chain services machine = advanced at ended ⊢
    cases advanced with
    | ok progress middle =>
      cases progress with
      | running chain => exact ih ended
      | finished result => cases ended
    | error interruption middle =>
      cases ended
      rfl

/-- **Once a chain has ended, the frame outside of it goes on.** It does so with the fuel that the
chain has left. -/
theorem run_inside {fuel : Nat} {chain : Chain} {services : Services} {machine : Machine}
    (caller : Frame)
    (ended : ∀ after, run fuel chain services machine ≠ .error .outOfFuel after) :
    ∃ used ≤ fuel, run used chain services machine = run fuel chain services machine ∧
      ∀ total, used ≤ total → run total (chain.inside caller) services machine =
        Nested.goOn (fun frame => run (total - used) ⟨frame, []⟩) caller
          (run fuel chain services machine) services := by
  induction fuel generalizing chain machine with
  | zero => exact (ended machine rfl).elim
  | succ fuel ih =>
    have inside (left : Nat) := congrFun (congrFun (run_succ_inside left chain caller) services)
      machine
    have alone (left : Nat) := congrFun (congrFun (run_succ left chain) services) machine
    simp only [Bind.bind, ReaderT.bind, EStateM.bind, attempt] at inside alone
    cases advanced : advance chain services machine with
    | ok progress middle =>
      simp only [advanced] at inside alone
      cases progress with
      | running chain' =>
        rw [alone] at ended ⊢
        obtain ⟨used, within, same, goesOn⟩ := ih ended
        refine ⟨used + 1, Nat.succ_le_succ within, ?_, fun total enough => ?_⟩
        · rw [alone]
          exact same
        · obtain ⟨total, rfl⟩ := Nat.exists_eq_add_of_le' (Nat.one_le_of_lt enough)
          rw [inside, Nat.add_sub_add_right]
          exact goesOn total (Nat.le_of_succ_le_succ enough)
      | finished result =>
        refine ⟨1, Nat.le_add_left 1 fuel, ?_, fun total enough => ?_⟩
        · rw [alone 0, alone fuel]
          rfl
        · obtain ⟨total, rfl⟩ := Nat.exists_eq_add_of_le' enough
          rw [inside, alone, Nat.add_sub_cancel]
          have resumed : Progress.inside caller (.finished result) >>= afterwards (run total) =
              (do run total ⟨← onFrame (Frame.resume result) caller, []⟩) :=
            bind_assoc _ _ _
          exact congrFun (congrFun resumed services) middle
    | error interruption middle =>
      simp only [advanced] at inside alone
      refine ⟨1, Nat.le_add_left 1 fuel, ?_, fun total enough => ?_⟩
      · rw [alone 0, alone fuel]
      · obtain ⟨total, rfl⟩ := Nat.exists_eq_add_of_le' enough
        rw [inside, alone, Nat.add_sub_cancel]
        cases interruption with
        | thrown exception =>
          exact congrFun (congrFun (unwind_bind_run total exception caller) services) middle
        | fatal error => rfl
        | outOfFuel => exact (ended middle (alone fuel)).elim

/-! ## One frame -/

/-- Makes a call from the only frame of a chain and runs what comes of it. -/
def calling (fuel : Nat) (owner : LinkedClass) (index : Nat) (arguments : List Value)
    (caller : Frame) : Exec (Option Value) := do
  run fuel (← call owner index arguments caller [])

/-- A chain of one frame executes the instructions of this frame. -/
theorem run_single (fuel : Nat) (frame : Frame) :
    run (fuel + 1) ⟨frame, []⟩ =
      Nested.executing (calling fuel) (fun frame => run fuel ⟨frame, []⟩) frame := by
  funext services machine
  rw [run_succ]
  simp only [Bind.bind, ReaderT.bind, EStateM.bind, advance, Nested.executing]
  cases Step.instruction services ⟨machine, frame, frame.pc⟩ with
  | ok next state =>
    obtain ⟨machine, frame, cursor⟩ := state
    cases next with
    | proceed => rfl
    | call owner index arguments =>
      have called : (do
          return .running (← call owner index arguments { frame with resumePc := cursor } []) :
            Exec Progress) >>= afterwards (run fuel) =
          calling fuel owner index arguments { frame with resumePc := cursor } :=
        bind_assoc _ _ _
      exact congrFun (congrFun called services) machine
    | finish result => rfl
  | error interruption state =>
    obtain ⟨machine, frame, cursor⟩ := state
    cases interruption with
    | thrown exception =>
      have unwound : (do return .running (← unwind exception frame []) : Exec Progress) >>=
          afterwards (run fuel) = (do run fuel ⟨← Nested.offer exception frame, []⟩) :=
        (bind_assoc _ _ _).trans (unwind_bind_run fuel exception frame)
      exact congrFun (congrFun unwound services) machine
    | fatal error => rfl
    | outOfFuel => rfl

end Chain

end JavaMachine
