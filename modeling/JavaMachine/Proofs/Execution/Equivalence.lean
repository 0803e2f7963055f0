import JavaMachine.Proofs.Execution.Call

/-! # Chains of frames and calls inside calls

A machine that keeps the frames of a call in a chain has the same outcomes as one that makes every
call by a call of its own. Neither is ahead of the other: what one of them finds with some fuel,
the other finds with enough of it. Both directions rest on the same fact, that a chain which has
ended leaves the frame outside of it just where a call of its own would have left it. -/

namespace JavaMachine

open Execution (run settling)

/-! ## Outcomes -/

/-- A result that is not for want of fuel. -/
def Ended {α : Type} (result : EStateM.Result Interruption Machine α) : Prop :=
  ∀ machine, result ≠ .error .outOfFuel machine

instance {α : Type} (result : EStateM.Result Interruption Machine α) : Decidable (Ended result) :=
  match result with
  | .error .outOfFuel machine => isFalse fun ended => ended machine rfl
  | .error (.thrown _) _ | .error (.fatal _) _ | .ok _ _ => isTrue fun _ => nofun

/-- The same value or the same throwable, or errors of the same variant, and the same machine. -/
inductive SameOutcome {α : Type} :
    EStateM.Result Interruption Machine α → EStateM.Result Interruption Machine α → Prop where
  | returned (value : α) (machine : Machine) : SameOutcome (.ok value machine) (.ok value machine)
  | thrown (exception : Ref) (machine : Machine) :
      SameOutcome (.error (.thrown exception) machine) (.error (.thrown exception) machine)
  | fatal {error error' : Error} (variant : error.SameVariant error') (machine : Machine) :
      SameOutcome (.error (.fatal error) machine) (.error (.fatal error') machine)

section Outcomes

variable {α : Type} {first second third : EStateM.Result Interruption Machine α}

theorem SameOutcome.symm (same : SameOutcome first second) : SameOutcome second first := by
  cases same with
  | returned value machine => exact .returned value machine
  | thrown exception machine => exact .thrown exception machine
  | fatal variant machine => exact .fatal (Eq.symm variant) machine

theorem SameOutcome.trans (near : SameOutcome first second) (far : SameOutcome second third) :
    SameOutcome first third := by
  cases near with
  | returned value machine => exact far
  | thrown exception machine => exact far
  | fatal variant machine =>
    cases far with
    | fatal variant' => exact .fatal (Eq.trans variant variant') machine

namespace Agrees

variable {expected : Expectation Machine α} {depth : Nat}

theorem ended (agrees : Agrees expected first second) (end_ : Ended first) : Ended second := by
  cases agrees with
  | outOfFuel => exact (end_ _ rfl).elim
  | ok met => exact fun _ => nofun
  | thrown met => exact fun _ => nofun
  | fatal variant met => exact fun _ => nofun

theorem sameOutcome (agrees : Agrees (.keeping depth) first second) (end_ : Ended first) :
    SameOutcome first second := by
  cases agrees with
  | outOfFuel => exact (end_ _ rfl).elim
  | ok met => exact .returned _ _
  | thrown met => exact .thrown _ _
  | fatal variant met =>
    obtain ⟨rfl, -⟩ := met
    exact .fatal variant _

theorem trans (near : Agrees (.atDepths depth depth) first second)
    (far : Agrees (.atDepths depth depth) second third) :
    Agrees (.atDepths depth depth) first third := by
  cases near with
  | outOfFuel => exact .outOfFuel
  | ok met => exact far
  | thrown met => exact far
  | fatal variant met =>
    cases far with
    | fatal variant' met' => exact .fatal (Eq.trans variant variant') (met.trans met')

end Agrees

end Outcomes

/-- A call that does not start does so in every machine. -/
theorem Faults.agrees {machine : Machine} {ok thrown : Nat}
    {result result' : EStateM.Result Interruption Machine (Option Value)}
    (faults : Faults machine result) (faults' : Faults machine result') :
    Agrees (.atDepths ok thrown) result result' := by
  obtain ⟨fault, after, same, rfl⟩ := faults
  obtain ⟨fault', after', same', rfl⟩ := faults'
  exact .fatal rfl (same.symm.trans same')

/-! ## Settled results -/

section Settled

variable {α : Type} {action action' : Exec α} {less more : Services} {machine : Machine}
  {depth : Nat}

/-- To settle the number of calls at what it is changes nothing. -/
theorem settling_right (agrees : Agrees (.atDepths depth depth) (action less machine)
      (action' more machine)) :
    Agrees (.atDepths depth depth) (action less machine)
      (settling action' (fun after => { after with depth }) more machine) := by
  unfold settling
  generalize action less machine = result at agrees ⊢
  generalize action' more machine = result' at agrees ⊢
  cases agrees with
  | outOfFuel => exact .outOfFuel
  | ok met =>
    cases met
    exact .ok rfl
  | thrown met =>
    cases met
    exact .thrown rfl
  | fatal variant met => exact .fatal variant (met.trans ⟨depth, rfl⟩)

theorem settling_left (agrees : Agrees (.atDepths depth depth) (action less machine)
      (action' more machine)) :
    Agrees (.atDepths depth depth)
      (settling action (fun after => { after with depth }) less machine)
      (action' more machine) := by
  unfold settling
  generalize action less machine = result at agrees ⊢
  generalize action' more machine = result' at agrees ⊢
  cases agrees with
  | outOfFuel => exact .outOfFuel
  | ok met =>
    cases met
    exact .ok rfl
  | thrown met =>
    cases met
    exact .thrown rfl
  | fatal variant met =>
    refine .fatal variant (Machine.SameButDepth.trans ?_ met)
    exact Machine.SameButDepth.symm ⟨depth, rfl⟩

end Settled

section Started

variable {less more : Services} {run run' : Chain → Exec (Option Value)} {natives : NativeTable}
  {owner : LinkedClass} {index : Nat} {arguments : List Value} {machine : Machine}
  {callee : Frame} {depth : Nat} (counted : machine.depth = depth + 1)
  (hasCode : ¬ owner.Bodiless index)
  (runAgrees : Agrees (.atDepths (depth + 1) (depth + 1))
    (run ⟨callee, []⟩ less { machine with depth := machine.depth + 1 })
    (run' ⟨callee, []⟩ more { machine with depth := machine.depth + 1 }))

include counted hasCode runAgrees

/-- A call of its own is a run of what it calls. -/
theorem run_agrees_invoke (starts : Starts more.limits owner index arguments machine callee) :
    Agrees (.atDepths (depth + 1) (depth + 1))
      (run ⟨callee, []⟩ less { machine with depth := machine.depth + 1 })
      (Execution.invoke natives run' owner index arguments more machine) := by
  rw [invoke_of_starts hasCode starts, counted]
  rw [counted] at runAgrees
  exact settling_right runAgrees

theorem invoke_agrees_run (starts : Starts less.limits owner index arguments machine callee) :
    Agrees (.atDepths (depth + 1) (depth + 1))
      (Execution.invoke natives run owner index arguments less machine)
      (run' ⟨callee, []⟩ more { machine with depth := machine.depth + 1 }) := by
  rw [invoke_of_starts hasCode starts, counted]
  rw [counted] at runAgrees
  exact settling_left runAgrees

end Started

/-! ## One call -/

section Calls

variable {less more : Services} (agree : less.Agrees more) {rest : Frame → Exec (Option Value)}
  {fuel depth : Nat} {owner : LinkedClass} {index : Nat} {arguments : List Value}
  {machine : Machine} {caller : Frame}

/-- To go on after a fault is to end with it. -/
theorem Faults.goOn {called : EStateM.Result Interruption Machine (Option Value)}
    (faults : Faults machine called) (services : Services) :
    Nested.goOn rest caller called services = called := by
  obtain ⟨fault, after, -, rfl⟩ := faults
  rfl

include agree

/-- A call from a chain agrees with one of its own if what they call does. -/
theorem Chain.calling_agrees_goOn {called : EStateM.Result Interruption Machine (Option Value)}
    (restAgrees : ∀ left ≤ fuel, ∀ frame machine, machine.depth = depth + 1 →
      Agrees (.atDepths depth depth) (run left ⟨frame, []⟩ less machine) (rest frame more machine))
    (hasCode : ¬ owner.Bodiless index)
    (started : ∀ callee, Starts less.limits owner index arguments machine callee →
      Agrees (.atDepths (depth + 1) (depth + 1))
        (run fuel ⟨callee, []⟩ less { machine with depth := machine.depth + 1 }) called)
    (stuck : (∀ callee, ¬ Starts less.limits owner index arguments machine callee) →
      Faults machine called) :
    Agrees (.atDepths depth depth) (Chain.calling fuel owner index arguments caller less machine)
      (Nested.goOn rest caller called more) := by
  by_cases starts : ∃ callee, Starts less.limits owner index arguments machine callee
  · obtain ⟨callee, starts⟩ := starts
    rw [calling_of_starts hasCode starts]
    by_cases ended : Ended (run fuel ⟨callee, []⟩ less { machine with depth := machine.depth + 1 })
    · obtain ⟨used, within, -, goesOn⟩ := run_inside caller ended
      rw [goesOn fuel within]
      exact Nested.goOn_agrees agree (restAgrees (fuel - used) (Nat.sub_le fuel used)) caller
        (started callee starts)
    · obtain ⟨after, outOfFuel⟩ := not_forall_not.mp ended
      rw [run_inside_outOfFuel caller outOfFuel]
      exact .outOfFuel
  · have never := not_exists.mp starts
    rw [(stuck never).goOn]
    exact (calling_of_not_starts hasCode never).agrees (stuck never)

/-- A call of its own agrees with one from a chain that has fuel left after what it calls. -/
theorem Chain.goOn_agrees_calling {called : EStateM.Result Interruption Machine (Option Value)}
    (needed : Nat) (enough : needed ≤ fuel)
    (restAgrees : ∀ left, fuel - needed ≤ left → ∀ frame machine, machine.depth = depth + 1 →
      Agrees (.atDepths depth depth) (rest frame less machine) (run left ⟨frame, []⟩ more machine))
    (hasCode : ¬ owner.Bodiless index)
    (started : ∀ callee, Starts more.limits owner index arguments machine callee →
      Agrees (.atDepths (depth + 1) (depth + 1)) called
        (run needed ⟨callee, []⟩ more { machine with depth := machine.depth + 1 }))
    (stuck : (∀ callee, ¬ Starts more.limits owner index arguments machine callee) →
      ∀ faulty, Faults machine faulty → Agrees (.atDepths (depth + 1) (depth + 1)) called faulty) :
    Agrees (.atDepths depth depth) (Nested.goOn rest caller called less)
      (Chain.calling fuel owner index arguments caller more machine) := by
  by_cases starts : ∃ callee, Starts more.limits owner index arguments machine callee
  · obtain ⟨callee, starts⟩ := starts
    rw [calling_of_starts hasCode starts]
    by_cases ended : Ended
        (run needed ⟨callee, []⟩ more { machine with depth := machine.depth + 1 })
    · obtain ⟨used, within, -, goesOn⟩ := run_inside caller ended
      rw [goesOn fuel (within.trans enough)]
      exact Nested.goOn_agrees agree
        (restAgrees (fuel - used) (Nat.sub_le_sub_left within fuel)) caller (started callee starts)
    · obtain ⟨after, outOfFuel⟩ := not_forall_not.mp ended
      have agrees := started callee starts
      rw [outOfFuel] at agrees
      cases agrees
      exact .outOfFuel
  · have never := not_exists.mp starts
    have faults : Faults machine
        (Chain.calling fuel owner index arguments caller more machine) :=
      calling_of_not_starts hasCode never
    have called := Nested.goOn_agrees agree (restAgrees fuel (Nat.sub_le fuel needed)) caller
      (stuck never _ faults)
    rwa [faults.goOn] at called

/-- Calls from chains agree if runs do that are no longer than theirs. -/
theorem Chain.calling_agrees {fuel' : Nat} (enough : fuel ≤ fuel')
    (runAgrees : ∀ {left left' depth : Nat} frame machine, left ≤ fuel → left ≤ left' →
      machine.depth = depth + 1 →
      Agrees (.atDepths depth depth) (run left ⟨frame, []⟩ less machine)
        (run left' ⟨frame, []⟩ more machine))
    (counted : machine.depth = depth + 1) :
    Agrees (.atDepths depth depth) (Chain.calling fuel owner index arguments caller less machine)
      (Chain.calling fuel' owner index arguments caller more machine) := by
  by_cases bodiless : owner.Bodiless index
  · rw [calling_of_bodiless bodiless, calling_of_bodiless bodiless]
    exact Nested.calling_agrees agree (fun frame machine => runAgrees frame machine le_rfl enough)
      owner index arguments caller counted
  · by_cases starts : ∃ callee, Starts less.limits owner index arguments machine callee
    · obtain ⟨callee, starts⟩ := starts
      rw [calling_of_starts bodiless starts]
      by_cases ended :
          Ended (run fuel ⟨callee, []⟩ less { machine with depth := machine.depth + 1 })
      · obtain ⟨used, within, same, goesOn⟩ := run_inside caller ended
        rw [goesOn fuel within, ← same]
        refine goOn_agrees_calling agree used (within.trans enough) ?_ bodiless ?_ ?_
        · intro left lower frame machine
          exact runAgrees frame machine (Nat.sub_le fuel used)
            ((Nat.sub_le_sub_right enough used).trans lower)
        · intro callee' starts'
          obtain rfl : callee = callee' := Except.ok.inj (starts.2.symm.trans starts'.2)
          exact runAgrees callee _ within le_rfl (congrArg (· + 1) counted)
        · intro never
          rw [agree.limits] at never
          exact (never callee starts).elim
      · obtain ⟨after, outOfFuel⟩ := not_forall_not.mp ended
        rw [run_inside_outOfFuel caller outOfFuel]
        exact .outOfFuel
    · have never := not_exists.mp starts
      have never' := never
      rw [← agree.limits] at never'
      exact (calling_of_not_starts bodiless never).agrees (calling_of_not_starts bodiless never')

end Calls

/-! ## More fuel for chains -/

/-- A chain of one frame that ends does so with more fuel as well. -/
theorem run_agrees {less more : Services} (agree : less.Agrees more) {fuel fuel' depth : Nat}
    (enough : fuel ≤ fuel') (frame : Frame) (machine : Machine)
    (counted : machine.depth = depth + 1) :
    Agrees (.atDepths depth depth) (run fuel ⟨frame, []⟩ less machine)
      (run fuel' ⟨frame, []⟩ more machine) := by
  -- A call shares the fuel that is left with its caller, so that both may have any part of it.
  induction fuel using Nat.strong_induction_on generalizing fuel' depth frame machine with
  | _ fuel ih =>
    cases fuel with
    | zero => exact .outOfFuel
    | succ fuel =>
      obtain ⟨fuel', rfl⟩ := Nat.exists_eq_add_of_lt enough
      have within : fuel ≤ fuel + fuel' := Nat.le_add_right fuel fuel'
      rw [Chain.run_single, Chain.run_single]
      refine Nested.executing_agrees agree ?_ ?_ frame counted
      · intro frame machine
        exact ih fuel (Nat.lt_succ_self fuel) within frame machine
      · intro owner index arguments caller machine
        refine Chain.calling_agrees agree within ?_
        intro left left' depth frame machine bound longer
        exact ih left (Nat.lt_succ_of_le bound) longer frame machine

section Uniform

variable {setup : Setup}
  (uniform : Compositional.OfTable (fun _ action => Uniform action) setup.natives)

include uniform

theorem Setup.services_agree {fuel fuel' : Nat} (enough : fuel ≤ fuel') :
    (setup.services fuel).Agrees (setup.services fuel') := by
  induction fuel generalizing fuel' with
  | zero => exact services_zero_agrees fuel'
  | succ fuel ih =>
    obtain ⟨more, rfl⟩ := Nat.exists_eq_add_of_lt enough
    have within : fuel ≤ fuel + more := Nat.le_add_right fuel more
    have inner := ih within
    exact ⟨rfl, rfl, rfl, invoke_agrees inner uniform fun _ frame machine =>
      run_agrees inner within frame machine⟩

/-! ## From chains to calls inside calls -/

omit uniform in
/-- A run of a frame in a chain is one of the frame on its own, if services agree from some fuel
on. -/
theorem run_agrees_nested {less : Services} {enough : Nat}
    (agree : ∀ more, enough ≤ more → less.Agrees (Nested.services setup more))
    {fuel bound more depth : Nat} (steps : fuel ≤ bound) (calls : enough + fuel ≤ more)
    (frame : Frame) (machine : Machine) (counted : machine.depth = depth + 1) :
    Agrees (.atDepths depth depth) (run fuel ⟨frame, []⟩ less machine)
      (Nested.run bound frame (Nested.services setup more) machine) := by
  induction fuel using Nat.strong_induction_on generalizing bound more depth frame machine with
  | _ fuel ih =>
    cases fuel with
    | zero => exact .outOfFuel
    | succ fuel =>
      obtain ⟨bound, rfl⟩ := Nat.exists_eq_add_of_le' (Nat.one_le_of_lt steps)
      have some : fuel < more := Nat.lt_of_add_left_lt calls
      obtain ⟨more, rfl⟩ := Nat.exists_eq_add_of_le' (Nat.one_le_of_lt some)
      have inner := agree more (by omega)
      have outer := agree (more + 1) (by omega)
      have restAgrees {depth : Nat} (left : Nat) (within : left ≤ fuel) (frame : Frame)
          (machine : Machine) (counted : machine.depth = depth + 1) :
          Agrees (.atDepths depth depth) (run left ⟨frame, []⟩ less machine)
            (Nested.run bound frame (Nested.services setup (more + 1)) machine) :=
        ih left (Nat.lt_succ_of_le within) (by omega) (by omega) frame machine counted
      rw [Chain.run_single]
      refine Nested.executing_agrees outer (restAgrees fuel le_rfl) ?_ frame counted
      intro owner index arguments caller machine counted
      by_cases bodiless : owner.Bodiless index
      · rw [Chain.calling_of_bodiless bodiless]
        exact Nested.calling_agrees outer (restAgrees fuel le_rfl) owner index arguments caller
          counted
      · refine Chain.calling_agrees_goOn outer restAgrees bodiless ?_ ?_
        · intro callee starts
          rw [← inner.limits] at starts
          refine run_agrees_invoke counted bodiless ?_ starts
          exact ih fuel (Nat.lt_succ_self fuel) (by omega) (by omega) callee _
            (congrArg (· + 1) counted)
        · intro never
          rw [← inner.limits] at never
          exact invoke_of_not_starts bodiless never

/-- **Whatever a machine with chains does, one that makes calls of their own does.** -/
theorem Setup.services_agree_nested (fuel : Nat) :
    ∃ enough, ∀ more, enough ≤ more →
      (setup.services fuel).Agrees (Nested.services setup more) := by
  induction fuel with
  | zero => exact ⟨0, fun more _ => Nested.services_zero_agrees more⟩
  | succ fuel ih =>
    obtain ⟨enough, agree⟩ := ih
    refine ⟨enough + fuel + 1, fun more within => ?_⟩
    obtain ⟨more, rfl⟩ := Nat.exists_eq_add_of_le' (Nat.one_le_of_lt within)
    have inner := agree more (by omega)
    exact ⟨rfl, rfl, rfl, invoke_agrees inner uniform fun _ frame machine =>
      run_agrees_nested agree (by omega) (by omega) frame machine⟩

/-! ## From calls inside calls to chains -/

/-- A run of a frame on its own is one of the frame in a chain, if services agree from some fuel
on. Each of its calls takes `needed` instructions at most. -/
theorem nested_run_agrees {less : Services} {needed : Nat}
    (agree : ∀ more, needed < more → less.Agrees (setup.services more))
    {bound fuel more depth : Nat} (steps : bound * (needed + 1) ≤ fuel) (calls : needed < more)
    (frame : Frame) (machine : Machine) (counted : machine.depth = depth + 1) :
    Agrees (.atDepths depth depth) (Nested.run bound frame less machine)
      (run fuel ⟨frame, []⟩ (setup.services more) machine) := by
  induction bound generalizing fuel depth frame machine with
  | zero => exact .outOfFuel
  | succ bound ih =>
    rw [Nat.succ_mul] at steps
    obtain ⟨fuel, rfl⟩ := Nat.exists_eq_add_of_le' (Nat.one_le_of_lt (Nat.lt_of_add_left_lt steps))
    have outer := agree more calls
    have inner := Setup.services_agree uniform (Nat.le_of_lt calls)
    have restAgrees {depth : Nat} (left : Nat) (enough : fuel - needed ≤ left) (frame : Frame)
        (machine : Machine) (counted : machine.depth = depth + 1) :
        Agrees (.atDepths depth depth) (Nested.run bound frame less machine)
          (run left ⟨frame, []⟩ (setup.services more) machine) :=
      ih (by omega) frame machine counted
    rw [Chain.run_single]
    refine Nested.executing_agrees outer (restAgrees fuel (Nat.sub_le fuel needed)) ?_ frame counted
    intro owner index arguments caller machine counted
    by_cases bodiless : owner.Bodiless index
    · rw [Chain.calling_of_bodiless bodiless]
      exact Nested.calling_agrees outer (restAgrees fuel (Nat.sub_le fuel needed)) owner index
        arguments caller counted
    · have called := ((agree (needed + 1) (Nat.lt_succ_self needed)).invoke owner index arguments
        machine).atDepths_of_keeping
      rw [counted] at called
      refine Chain.goOn_agrees_calling outer needed (by omega) restAgrees bodiless ?_ ?_
      · intro callee starts
        rw [inner.limits] at starts
        refine called.trans (invoke_agrees_run counted bodiless ?_ starts)
        exact run_agrees inner le_rfl callee _ (congrArg (· + 1) counted)
      · intro never faulty faults
        refine called.trans (Faults.agrees ?_ faults)
        rw [inner.limits] at never
        exact invoke_of_not_starts bodiless never

/-- **Whatever a machine that makes calls of their own does, one with chains does.** -/
theorem Nested.services_agree_setup (fuel : Nat) :
    ∃ enough, ∀ more, enough ≤ more →
      (Nested.services setup fuel).Agrees (setup.services more) := by
  induction fuel with
  | zero => exact ⟨0, fun more _ => Setup.services_zero_agrees more⟩
  | succ fuel ih =>
    obtain ⟨needed, agree⟩ := ih
    refine ⟨fuel * (needed + 1) + needed + 2, fun more within => ?_⟩
    obtain ⟨more, rfl⟩ := Nat.exists_eq_add_of_le' (Nat.one_le_of_lt within)
    have inner := agree more (by omega)
    exact ⟨rfl, rfl, rfl, invoke_agrees inner uniform fun _ frame machine =>
      nested_run_agrees uniform (fun more far => agree more (Nat.le_of_lt far)) (by omega)
        (by omega) frame machine⟩

end Uniform

/-! ## The same outcomes -/

/-- **A machine with chains of frames has the outcomes of one with calls inside calls.** Whatever
is called, in whatever state and with whatever limits, the call ends in the one machine if it does
in the other, and it ends in the same way. The native methods of the host are asked to be uniform,
as everything is that is put together from the actions of the machine. -/
theorem invoke_equivalent_nested {setup : Setup} {host : NativeTable}
    (natives : setup.natives = host ++ Native.table)
    (uniform : Compositional.OfTable (fun _ action => Uniform action) host)
    (owner : LinkedClass) (index : Nat) (arguments : List Value) (machine : Machine) :
    ((∃ fuel, Ended ((setup.services fuel).invoke owner index arguments machine)) ↔
        ∃ fuel, Ended ((Nested.services setup fuel).invoke owner index arguments machine)) ∧
      ∀ fuel fuel', Ended ((setup.services fuel).invoke owner index arguments machine) →
        Ended ((Nested.services setup fuel').invoke owner index arguments machine) →
          SameOutcome ((setup.services fuel).invoke owner index arguments machine)
            ((Nested.services setup fuel').invoke owner index arguments machine) := by
  have all : Compositional.OfTable (fun _ action => Uniform action) setup.natives := by
    rw [natives]
    exact Compositional.ofTable_append.mpr ⟨uniform, uniform_compositional.native_table⟩
  refine ⟨⟨?_, ?_⟩, fun fuel fuel' ended ended' => ?_⟩
  · rintro ⟨fuel, ended⟩
    obtain ⟨enough, agree⟩ := Setup.services_agree_nested all fuel
    exact ⟨enough, ((agree enough le_rfl).invoke owner index arguments machine).ended ended⟩
  · rintro ⟨fuel, ended⟩
    obtain ⟨enough, agree⟩ := Nested.services_agree_setup all fuel
    exact ⟨enough, ((agree enough le_rfl).invoke owner index arguments machine).ended ended⟩
  · obtain ⟨enough, agree⟩ := Setup.services_agree_nested all fuel
    have near := (agree _ (Nat.le_max_left enough fuel')).invoke owner index arguments machine
    have longer := Nested.services_agree all (Nat.le_max_right enough fuel')
    have far := longer.invoke owner index arguments machine
    exact (near.sameOutcome ended).trans (far.sameOutcome ended').symm

/-- A native method of a host, which greets. -/
def greet : NativeFunction := fun _ => do
  Exec.print false "hello"
  return none

/-- A class with a native method, a method that returns one and a method that calls both. -/
def greeterClass : LinkedClass :=
  let nothing : MethodDescriptor := ⟨[], none⟩
  let number : MethodDescriptor := ⟨[], some .int⟩
  let methods := #[
    ⟨⟨0x0009⟩, "main", "()I", number, some ⟨1, 0, #[0xb8, 0, 1, 0xb8, 0, 2, 0xac], []⟩⟩,
    ⟨⟨0x0109⟩, "greet", "()V", nothing, none⟩,
    ⟨⟨0x0009⟩, "one", "()I", number, some ⟨1, 0, #[0x04, 0xac], []⟩⟩]
  let pool := #[.methodref ⟨"Greeter", "greet", "()V", nothing⟩,
    .methodref ⟨"Greeter", "one", "()I", number⟩]
  .mk ⟨"Greeter", ⟨0x0001⟩, pool, [], [], methods, none, none⟩ none [] none
    (MethodTable.build methods none [])

def greeterSetup : Setup where
  sources := []
  limits := {}
  stringClass := default
  natives := [(⟨"Greeter", "greet", "()V"⟩, greet)] ++ Native.table

theorem invoke_equivalent_nested_greeter :
    Ended ((greeterSetup.services 6).invoke greeterClass 0 []
        { loaded := [("Greeter", greeterClass)] }) ∧
      SameOutcome
        ((greeterSetup.services 6).invoke greeterClass 0 []
          { loaded := [("Greeter", greeterClass)] })
        ((Nested.services greeterSetup 5).invoke greeterClass 0 []
          { loaded := [("Greeter", greeterClass)] }) := by
  have uniform : Compositional.OfTable (fun _ action => Uniform action)
      [(⟨"Greeter", "greet", "()V"⟩, greet)] :=
    Compositional.ofTable_cons.mpr ⟨fun _ => uniform_compositional.exec_bind
      (uniform_compositional.exec_print _ _) fun _ => uniform_pure _, nofun⟩
  have ended : Ended ((greeterSetup.services 6).invoke greeterClass 0 []
      { loaded := [("Greeter", greeterClass)] }) := by decide +kernel
  have ended' : Ended ((Nested.services greeterSetup 5).invoke greeterClass 0 []
      { loaded := [("Greeter", greeterClass)] }) := by decide +kernel
  exact ⟨ended, (invoke_equivalent_nested rfl uniform greeterClass 0 [] _).2 6 5 ended ended'⟩

end JavaMachine
