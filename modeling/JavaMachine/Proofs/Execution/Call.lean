import JavaMachine.Proofs.Execution.Chain

/-! # How calls start

A call of a method with code starts with a frame, whether it adds the frame to a chain or is made
by a call of its own. It does not start if the frame cannot be made or too many calls are in
progress; the two ways of calling check this in opposite orders, and so may give different faults
for the same call. -/

namespace JavaMachine

open Execution (enter onFrame call callBodiless run)

/-- A method that is native or abstract. -/
def LinkedClass.Bodiless (owner : LinkedClass) (index : Nat) : Prop :=
  ∃ method, owner.method? index = some method ∧ method.isBodiless

/-- A call of a method with code starts with a frame, if the number of calls allows it. -/
def Starts (limits : Limits) (owner : LinkedClass) (index : Nat) (arguments : List Value)
    (machine : Machine) (callee : Frame) : Prop :=
  machine.depth < limits.callDepth ∧ Frame.enter owner index arguments = .ok callee

/-- A fault of the machine itself, which leaves all but the number of calls as it was. -/
def Faults (machine : Machine) (result : EStateM.Result Interruption Machine (Option Value)) :
    Prop :=
  ∃ fault after, machine.SameButDepth after ∧ result = .error (.fatal (.virtualMachine fault)) after

section Calls

variable {owner : LinkedClass} {index : Nat} {arguments : List Value} {machine : Machine}
  {services : Services} {callee : Frame} {fuel : Nat} {caller : Frame}
  {natives : NativeTable} {runner : Chain → Exec (Option Value)}

/-- A frame cannot be made only because the machine is at fault. -/
theorem enter_error {error : Error} (failed : Frame.enter owner index arguments = .error error) :
    ∃ fault, error = .virtualMachine fault := by
  unfold Frame.enter at failed
  split at failed
  · cases failed
    exact ⟨_, rfl⟩
  · dsimp only at failed
    split at failed
    · cases failed
      exact ⟨_, rfl⟩
    · split at failed
      · cases failed
        exact ⟨_, rfl⟩
      · cases failed

theorem Chain.calling_of_bodiless (bodiless : owner.Bodiless index) :
    Chain.calling fuel owner index arguments caller =
      Nested.calling (fun frame => run fuel ⟨frame, []⟩) owner index arguments caller := by
  obtain ⟨method, found, without⟩ := bodiless
  funext services machine
  simp only [Chain.calling, call, found, without, ↓reduceIte, callBodiless, Nested.calling,
    Nested.goOn, Bind.bind, ReaderT.bind, EStateM.bind]
  cases services.invoke owner index arguments machine with
  | ok result after =>
    have resumed : (do return ⟨← onFrame (Frame.resume result) caller, []⟩ : Exec Chain) >>=
        run fuel = (do run fuel ⟨← onFrame (Frame.resume result) caller, []⟩) :=
      bind_assoc _ _ _
    exact congrFun (congrFun resumed services) after
  | error interruption after =>
    cases interruption with
    | thrown exception =>
      exact congrFun (congrFun (Chain.unwind_bind_run fuel exception caller) services) after
    | fatal error => rfl
    | outOfFuel => rfl

/-- A method with code is called with a frame of its own. -/
theorem call_of_code (hasCode : ¬ owner.Bodiless index) {method : Method}
    (found : owner.method? index = some method) :
    call owner index arguments caller [] = do
      enter
      return ⟨← Exec.ofExcept (Frame.enter owner index arguments), [caller]⟩ := by
  have without : ¬ method.isBodiless := fun without => hasCode ⟨method, found, without⟩
  simp only [call, found]
  rw [if_neg without]

/-- So is one that is called on its own. -/
theorem invoke_of_code (hasCode : ¬ owner.Bodiless index) {method : Method}
    (found : owner.method? index = some method) :
    Execution.invoke natives runner owner index arguments =
      Execution.runCode runner owner index arguments := by
  have without : ¬ method.isBodiless := fun without => hasCode ⟨method, found, without⟩
  rw [Method.isBodiless, Bool.or_eq_true, not_or] at without
  simp only [Execution.invoke, found]
  rw [if_neg without.2, if_neg without.1]

/-- A method that is not there starts no frame. -/
theorem enter_of_missing (missing : owner.method? index = none) :
    Frame.enter owner index arguments =
      .error (.virtualMachine (.noMethod owner.name index)) := by
  rw [Frame.enter, missing]

theorem Chain.calling_of_starts (hasCode : ¬ owner.Bodiless index)
    (starts : Starts services.limits owner index arguments machine callee) :
    Chain.calling fuel owner index arguments caller services machine =
      run fuel (Chain.inside ⟨callee, []⟩ caller) services
        { machine with depth := machine.depth + 1 } := by
  obtain ⟨below, made⟩ := starts
  cases found : owner.method? index with
  | none =>
    rw [enter_of_missing found] at made
    cases made
  | some method =>
    simp only [Chain.calling, call_of_code hasCode found, Bind.bind, ReaderT.bind, EStateM.bind,
      enter_eq, if_neg (Nat.not_le.mpr below), made]
    rfl

theorem Chain.calling_of_not_starts (hasCode : ¬ owner.Bodiless index)
    (stuck : ∀ callee, ¬ Starts services.limits owner index arguments machine callee) :
    Faults machine (Chain.calling fuel owner index arguments caller services machine) := by
  cases found : owner.method? index with
  | none =>
    refine ⟨.noMethod owner.name index, machine, machine.sameButDepth_refl, ?_⟩
    simp only [Chain.calling, call, found]
    rfl
  | some method =>
    simp only [Chain.calling, call_of_code hasCode found, Bind.bind, ReaderT.bind, EStateM.bind,
      enter_eq]
    by_cases below : machine.depth ≥ services.limits.callDepth
    · rw [if_pos below]
      exact ⟨_, machine, machine.sameButDepth_refl, rfl⟩
    · rw [if_neg below]
      cases made : Frame.enter owner index arguments with
      | ok callee => exact (stuck callee ⟨Nat.not_le.mp below, made⟩).elim
      | error error =>
        obtain ⟨fault, rfl⟩ := enter_error made
        exact ⟨fault, _, ⟨machine.depth + 1, rfl⟩, rfl⟩

theorem invoke_of_starts (hasCode : ¬ owner.Bodiless index)
    (starts : Starts services.limits owner index arguments machine callee) :
    Execution.invoke natives runner owner index arguments services machine =
      Execution.settling (runner ⟨callee, []⟩)
        (fun after => { after with depth := machine.depth }) services
          { machine with depth := machine.depth + 1 } := by
  obtain ⟨below, made⟩ := starts
  cases found : owner.method? index with
  | none =>
    rw [enter_of_missing found] at made
    cases made
  | some method =>
    rw [invoke_of_code hasCode found, Execution.runCode, made]
    have entered : enter services machine = .ok () { machine with depth := machine.depth + 1 } := by
      rw [enter_eq, if_neg (Nat.not_le.mpr below)]
    have ran : (do enter; runner ⟨callee, []⟩ : Exec (Option Value)) services machine =
        runner ⟨callee, []⟩ services { machine with depth := machine.depth + 1 } := by
      simp only [Bind.bind, ReaderT.bind, EStateM.bind, entered]
    unfold Execution.settling
    rw [← ran]
    rfl

theorem invoke_of_not_starts (hasCode : ¬ owner.Bodiless index)
    (stuck : ∀ callee, ¬ Starts services.limits owner index arguments machine callee) :
    Faults machine (Execution.invoke natives runner owner index arguments services machine) := by
  cases found : owner.method? index with
  | none =>
    refine ⟨.noMethod owner.name index, machine, machine.sameButDepth_refl, ?_⟩
    simp only [Execution.invoke, found]
    rfl
  | some method =>
    rw [invoke_of_code hasCode found, Execution.runCode]
    cases made : Frame.enter owner index arguments with
    | error error =>
      obtain ⟨fault, rfl⟩ := enter_error made
      exact ⟨fault, machine, machine.sameButDepth_refl, rfl⟩
    | ok callee =>
      have deep : machine.depth ≥ services.limits.callDepth :=
        Nat.not_lt.mp fun below => stuck callee ⟨below, made⟩
      have refused : enter services machine =
          .error (.fatal (.virtualMachine (.callDepth services.limits.callDepth))) machine := by
        rw [enter_eq, if_pos deep]
      have ran : (do enter; runner ⟨callee, []⟩ : Exec (Option Value)) services machine =
          .error (.fatal (.virtualMachine (.callDepth services.limits.callDepth))) machine := by
        simp only [Bind.bind, ReaderT.bind, EStateM.bind, refused]
      refine ⟨.callDepth services.limits.callDepth, machine, machine.sameButDepth_refl, ?_⟩
      change Execution.settling _ _ services machine = _
      rw [Execution.settling, ran]

end Calls

end JavaMachine
