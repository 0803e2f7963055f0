import JavaMachine.Proofs.Execution.Chain
import JavaMachine.Proofs.Execution.Regime
import JavaMachine.Proofs.Instruction.Place
import JavaMachine.Proofs.Native.Informed

/-! # Watching a run

A watcher is shown a run from inside: before every instruction of every chain of frames, and at the
beginning of every native method, it sees what is in progress and the machine, and may stop the run.
A regime that governs a setup holds at all of these moments, together with the count of the calls in
progress and the bounds of all frames (`Regime.Regular`): a watcher that would stop only at other
moments makes no difference to any call (`Regime.Governs.twins`). -/

namespace JavaMachine

open Execution (enter leave onFrame findHandler unwind Progress callBodiless call finish advance
  settling)

/-! ## Watched runs -/

/-- What is in progress: a frame of a chain, or a native method. -/
inductive Activation where
  | code (frame : Frame)
  | native (owner : LinkedClass) (method : Method)

/-- Whether to stop a run, given what is in progress, the innermost first, and the machine. -/
abbrev Watcher := List Activation → Machine → Bool

/-- What a chain of frames has in progress. -/
def Chain.live (chain : Chain) : List Activation :=
  .code chain.frame :: chain.callers.map .code

namespace Watched

/-- Lets a watcher look, which may stop the run. -/
def look (watcher : Watcher) (live : List Activation) : Exec Unit := fun _ machine =>
  if watcher live machine then .error .outOfFuel machine else .ok () machine

/-- An action with services of its own. -/
def within {α : Type} (services : Services) (action : Exec α) : Exec α := fun _ machine =>
  action services machine

variable (watcher : Watcher) (services : List Activation → Services) (live : List Activation)

/-- A native method, which is watched when it begins. -/
def native (function : NativeFunction) : NativeFunction := fun call => do
  look watcher (.native call.owner call.method :: live)
  within (services (.native call.owner call.method :: live)) (function call)

/-- The run of a chain, which is watched before every instruction. -/
def run : (fuel : Nat) → Chain → Exec (Option Value)
  | 0, _ => throw .outOfFuel
  | fuel + 1, chain => do
    look watcher (chain.live ++ live)
    let progress ← within (services (chain.live ++ live)) (advance chain)
    Chain.afterwards (run fuel) progress

end Watched

@[simp] theorem Setup.withInvoker_services (setup : Setup) (fuel : Nat) :
    setup.withInvoker (setup.services fuel).invoke = setup.services fuel := by
  cases fuel <;> rfl

/-- The services of a machine with a watcher, inside of what is in progress. -/
def Setup.watched (setup : Setup) (watcher : Watcher) : (fuel : Nat) → List Activation → Services
  | 0, _ => setup.withInvoker fun _ _ _ => throw .outOfFuel
  | fuel + 1, live =>
    let inner := setup.watched watcher fuel
    setup.withInvoker fun owner index arguments machine =>
      Execution.invoke
        (setup.natives.map fun entry => (entry.1, Watched.native watcher inner live entry.2))
        (Watched.run watcher inner live fuel) owner index arguments (inner live) machine

@[simp] theorem Setup.withInvoker_watched (setup : Setup) (watcher : Watcher) (fuel : Nat)
    (live : List Activation) :
    setup.withInvoker (setup.watched watcher fuel live).invoke = setup.watched watcher fuel live := by
  cases fuel <;> rfl

namespace Regime

variable (regime : Regime) (setup : Setup)

/-! ## Regular moments -/

/-- A frame within its bounds, of a method that is called. -/
structure Hosts (frame : Frame) : Prop where
  bounded : frame.Bounded
  method : ∃ index, regime.known.Method frame.owner index ∧
    frame.owner.method? index = some frame.method ∧ frame.method.code = some frame.code

/-- What holds wherever a run may be looked at: as many calls are counted as are in progress, no
more than are allowed, and all frames are within their bounds. -/
structure Regular (live : List Activation) (machine : Machine) : Prop where
  good : regime.good machine
  depth : machine.depth = live.length
  limit : live.length ≤ setup.limits.callDepth
  hosts (frame : Frame) (member : .code frame ∈ live) : regime.Hosts frame

/-- A regime that loading, all instructions and all native methods of a setup follow. -/
structure Governs : Prop where
  load (invoke : Invoker) (name : String) (machine : Machine) (good : regime.good machine) :
    regime.Ends machine.depth anything machine
      (Exec.load name (setup.withInvoker invoke) machine)
  instruction : regime.Leads setup (fun state => regime.Hosts state.frame) Step.instruction
    fun next _ => regime.known.Next next
  natives : Serving regime.known.Calls (fun _ action => regime.Follows setup anything action)
    setup.natives

variable {regime setup}

theorem Regular.mem_live {frame : Frame} {callers : List Frame} {live : List Activation}
    {machine : Machine}
    (regular : regime.Regular setup (Chain.live ⟨frame, callers⟩ ++ live) machine) :
    regime.Hosts frame :=
  regular.hosts frame (List.mem_append_left _ List.mem_cons_self)

/-- A chain may go on with another frame in place of its innermost one. -/
theorem Regular.replace {frame other : Frame} {callers : List Frame} {live : List Activation}
    {machine after : Machine}
    (regular : regime.Regular setup (Chain.live ⟨frame, callers⟩ ++ live) machine)
    (good : regime.good after) (depth : after.depth = machine.depth) (hosts : regime.Hosts other) :
    regime.Regular setup (Chain.live ⟨other, callers⟩ ++ live) after where
  good := good
  depth := depth.trans regular.depth
  limit := regular.limit
  hosts each member := by
    rcases List.mem_cons.mp member with same | member
    · cases same
      exact hosts
    · exact regular.hosts each (List.mem_cons_of_mem _ member)

/-- Without its innermost frame a chain has one call less in progress. -/
theorem Regular.pop {frame caller : Frame} {callers : List Frame} {live : List Activation}
    {machine after : Machine}
    (regular : regime.Regular setup (Chain.live ⟨frame, caller :: callers⟩ ++ live) machine)
    (good : regime.good after) (depth : after.depth + 1 = machine.depth) :
    regime.Regular setup (Chain.live ⟨caller, callers⟩ ++ live) after where
  good := good
  depth := Nat.succ.inj (depth.trans regular.depth)
  limit := Nat.le_of_succ_le regular.limit
  hosts each member := regular.hosts each (List.mem_cons_of_mem _ member)

/-- A call that is allowed to begin is one more in progress. -/
theorem Regular.push {activation : Activation} {live : List Activation} {machine : Machine}
    (regular : regime.Regular setup live machine)
    (room : ¬ machine.depth ≥ setup.limits.callDepth)
    (hosts : ∀ frame, activation = .code frame → regime.Hosts frame) :
    regime.Regular setup (activation :: live) { machine with depth := machine.depth + 1 } where
  good := regime.good_depth _ regular.good
  depth := congrArg Nat.succ regular.depth
  limit := by
    rw [regular.depth] at room
    exact Nat.lt_of_not_le room
  hosts frame member := by
    rcases List.mem_cons.mp member with same | member
    · exact hosts frame same.symm
    · exact regular.hosts frame member

/-! ## Operations on frames that the regime hosts -/

/-- An operation after which a frame is still hosted. -/
def HostsAfter {α : Type} (regime : Regime) (operation : FrameM α) : Prop :=
  ∀ frame, regime.Hosts frame → regime.Hosts (endFrame (operation frame))

theorem Hosts.keeps {before after : Frame} (hosts : regime.Hosts before)
    (keeps : before.Keeps after) : regime.Hosts after := by
  have bounded := keeps.bounded hosts.bounded
  obtain ⟨⟨_, _, rfl⟩, -, -⟩ := keeps
  exact ⟨bounded, hosts.method⟩

theorem hostsAfter_of_stays {α : Type} {operation : FrameM α} (stays : Frame.Stays operation) :
    regime.HostsAfter operation :=
  fun frame hosts => hosts.keeps (stays frame)

theorem HostsAfter.bind {α β : Type} {operation : FrameM α} {next : α → FrameM β}
    (first : regime.HostsAfter operation) (rest : ∀ value, regime.HostsAfter (next value)) :
    regime.HostsAfter (operation >>= next) := by
  intro frame hosts
  have near := first frame hosts
  simp only [Bind.bind, EStateM.bind]
  cases ended : operation frame with
  | ok value after =>
    rw [ended] at near
    exact rest value after near
  | error error after =>
    rw [ended] at near
    exact near

theorem hostsAfter_modify {change : Frame → Frame}
    (hosts : ∀ frame, regime.Hosts frame → regime.Hosts (change frame)) :
    regime.HostsAfter (modify change) :=
  hosts

theorem Hosts.move {frame : Frame} (hosts : regime.Hosts frame) (pc : Nat) :
    regime.Hosts { frame with pc } :=
  ⟨⟨hosts.bounded.stack, hosts.bounded.locals⟩, hosts.method⟩

theorem hostsAfter_resume (result : Option Value) : regime.HostsAfter (Frame.resume result) := by
  have moved : regime.HostsAfter (modify fun frame : Frame => { frame with pc := frame.resumePc }) :=
    hostsAfter_modify fun frame hosts => hosts.move frame.resumePc
  cases result with
  | none => exact moved
  | some value => exact (hostsAfter_of_stays (Frame.stays_push value)).bind fun _ => moved

theorem hostsAfter_catchAt (target : Nat) (exception : Ref) :
    regime.HostsAfter (Frame.catchAt target exception) := by
  refine HostsAfter.bind (hostsAfter_modify fun frame hosts => ?_) fun _ => ?_
  · exact ⟨⟨Nat.zero_le _, hosts.bounded.locals⟩, hosts.method⟩
  · exact (hostsAfter_of_stays (Frame.stays_push _)).bind fun _ =>
      hostsAfter_modify fun frame hosts => hosts.move target

/-- A call starts with a frame within its bounds. -/
theorem hosts_of_enter {owner : LinkedClass} {index : Nat} {arguments : List Value} {callee : Frame}
    (callable : regime.known.Method owner index)
    (entered : Frame.enter owner index arguments = .ok callee) : regime.Hosts callee := by
  unfold Frame.enter at entered
  split at entered
  · cases entered
  · next method found =>
    dsimp only at entered
    split at entered
    · cases entered
    · next code present =>
      split at entered
      · cases entered
      · next room =>
        cases entered
        refine ⟨⟨Nat.zero_le _, ?_⟩, index, callable, found, present⟩
        simp only [Array.size_append, List.size_toArray, Array.size_replicate]
        omega

/-! ## Parts of a run -/

/-- What has begun with a machine has come to a chain with which a run may go on, or was
interrupted. -/
inductive Continues (regime : Regime) (setup : Setup) (live : List Activation) (before : Machine) :
    EStateM.Result Interruption Machine Chain → Prop where
  | ok {chain : Chain} {after : Machine} (regular : regime.Regular setup (chain.live ++ live) after)
      (kept : regime.kept before after) : Continues regime setup live before (.ok chain after)
  | error {interruption : Interruption} {after : Machine} (good : regime.good after)
      (kept : regime.kept before after) :
      Continues regime setup live before (.error interruption after)

/-- What has begun with a machine has come to a chain with which a run may go on, or to an end. -/
inductive Advances (regime : Regime) (setup : Setup) (live : List Activation) (before : Machine) :
    EStateM.Result Interruption Machine Progress → Prop where
  | running {chain : Chain} {after : Machine}
      (regular : regime.Regular setup (chain.live ++ live) after) (kept : regime.kept before after) :
      Advances regime setup live before (.ok (.running chain) after)
  | finished {result : Option Value} {after : Machine} (good : regime.good after)
      (kept : regime.kept before after) :
      Advances regime setup live before (.ok (.finished result) after)
  | error {interruption : Interruption} {after : Machine} (good : regime.good after)
      (kept : regime.kept before after) :
      Advances regime setup live before (.error interruption after)

section Parts

variable {live : List Activation} {before machine : Machine} {frame : Frame} {callers : List Frame}

theorem ends_ok {α : Type} {value : α} (good : regime.good machine) :
    regime.Ends machine.depth anything machine
      (.ok value machine : EStateM.Result Interruption Machine α) :=
  ⟨good, rfl, regime.kept_refl _, fun _ _ _ => trivial⟩

theorem Continues.after {result : EStateM.Result Interruption Machine Chain}
    (kept : regime.kept before machine) (continues : regime.Continues setup live machine result) :
    regime.Continues setup live before result := by
  cases continues with
  | ok regular kept' => exact .ok regular (regime.kept_trans kept kept')
  | error good kept' => exact .error good (regime.kept_trans kept kept')

theorem Advances.after {result : EStateM.Result Interruption Machine Progress}
    (kept : regime.kept before machine) (advances : regime.Advances setup live machine result) :
    regime.Advances setup live before result := by
  cases advances with
  | running regular kept' => exact .running regular (regime.kept_trans kept kept')
  | finished good kept' => exact .finished good (regime.kept_trans kept kept')
  | error good kept' => exact .error good (regime.kept_trans kept kept')

/-- An action does the same from a machine with either of two ways of making calls, and comes to a
chain with which a run may go on or is interrupted. -/
def Carries (regime : Regime) (setup : Setup) (first second : Invoker) (live : List Activation)
    (machine : Machine) (action : Exec Chain) : Prop :=
  action (setup.withInvoker second) machine = action (setup.withInvoker first) machine ∧
    regime.Continues setup live machine (action (setup.withInvoker first) machine)

/-- An action does the same from a machine with either of two ways of making calls, and comes to a
chain with which a run may go on, to an end, or is interrupted. -/
def CarriesOn (regime : Regime) (setup : Setup) (first second : Invoker) (live : List Activation)
    (machine : Machine) (action : Exec Progress) : Prop :=
  action (setup.withInvoker second) machine = action (setup.withInvoker first) machine ∧
    regime.Advances setup live machine (action (setup.withInvoker first) machine)

variable {first second : Invoker}

theorem Carries.carriesOn {action : Exec Chain}
    (carries : regime.Carries setup first second live machine action) :
    regime.CarriesOn setup first second live machine (do return .running (← action)) := by
  obtain ⟨same, continues⟩ := carries
  simp only [CarriesOn, Bind.bind, ReaderT.bind, EStateM.bind, same]
  generalize action (setup.withInvoker first) machine = result at continues
  cases continues with
  | ok regular kept => exact ⟨rfl, .running regular kept⟩
  | error good kept => exact ⟨rfl, .error good kept⟩

/-- A hosted frame goes on, as the innermost one of its chain, or the machine is at fault. -/
theorem carries_onFrame {operation : FrameM Unit} (hostsAfter : regime.HostsAfter operation)
    (regular : regime.Regular setup (Chain.live ⟨frame, callers⟩ ++ live) machine) :
    regime.Carries setup first second live machine
      (do return ⟨← onFrame operation frame, callers⟩) := by
  have hosts := hostsAfter frame regular.mem_live
  unfold Carries onFrame
  cases ended : operation frame with
  | ok _ after =>
    rw [ended] at hosts
    exact ⟨rfl, .ok (regular.replace regular.good rfl hosts) (regime.kept_refl _)⟩
  | error error after => exact ⟨rfl, .error regular.good (regime.kept_refl _)⟩

section Governed

variable (governs : regime.Governs setup)

include governs

variable (first second) in
theorem findHandler_ends (pc : Nat) (thrown : LinkedClass) (handlers : List Handler)
    (machine : Machine) (good : regime.good machine) :
    findHandler pc thrown handlers (setup.withInvoker second) machine =
        findHandler pc thrown handlers (setup.withInvoker first) machine ∧
      regime.Ends machine.depth anything machine
        (findHandler pc thrown handlers (setup.withInvoker first) machine) := by
  induction handlers generalizing machine with
  | nil => exact ⟨rfl, ends_ok good⟩
  | cons handler rest ih =>
    rw [findHandler]
    split
    · exact ih machine good
    cases handler.catchType with
    | none => exact ⟨rfl, ends_ok good⟩
    | some name =>
      have loads := governs.load first name machine good
      have same : Exec.load name (setup.withInvoker second) machine =
          Exec.load name (setup.withInvoker first) machine := rfl
      simp only [Bind.bind, ReaderT.bind, EStateM.bind, same]
      cases loaded : Exec.load name (setup.withInvoker first) machine with
      | error interruption after =>
        rw [loaded] at loads
        exact ⟨rfl, loads.interrupted⟩
      | ok caught after =>
        rw [loaded] at loads
        dsimp only
        split
        · exact ⟨rfl, loads.good, loads.depth, loads.kept, fun _ _ _ => trivial⟩
        · obtain ⟨sameRest, endsRest⟩ := ih after loads.good
          have depth : after.depth = machine.depth := loads.depth
          rw [depth] at endsRest
          exact ⟨sameRest, endsRest.after loads.kept⟩

/-- A frame to which a throwable is offered goes on with it, or ends and with it one of the calls in
progress. -/
theorem offering_carries (exception : Ref) {ended : Exec Chain}
    (regular : regime.Regular setup (Chain.live ⟨frame, callers⟩ ++ live) machine)
    (rest : ∀ after, regime.good after → after.depth + 1 = machine.depth →
      regime.Carries setup first second live after ended) :
    regime.Carries setup first second live machine
      (Chain.offering exception frame (fun frame => return ⟨frame, callers⟩) ended) := by
  have object (services : Services) :
      Exec.object exception services machine = .ok (machine.heap.get exception) machine := rfl
  obtain ⟨same, ends⟩ := findHandler_ends first second governs frame.pc
    (machine.heap.get exception).type frame.code.handlers machine regular.good
  unfold Carries Chain.offering
  rw [Operation.bind_of_ok (object _), Operation.bind_of_ok (object _)]
  simp only [Bind.bind, ReaderT.bind, EStateM.bind, same]
  cases found : findHandler frame.pc (machine.heap.get exception).type frame.code.handlers
      (setup.withInvoker first) machine with
  | error interruption after =>
    rw [found] at ends
    exact ⟨rfl, .error ends.good ends.kept⟩
  | ok target after =>
    rw [found] at ends
    cases target with
    | some target =>
      have stays := regular.replace ends.good ends.depth regular.mem_live
      obtain ⟨sameRest, continues⟩ := carries_onFrame (hostsAfter_catchAt target exception) stays
      exact ⟨sameRest, continues.after ends.kept⟩
    | none =>
      have counted : after.depth - 1 + 1 = machine.depth := by
        have depth : after.depth = machine.depth := ends.depth
        have regularDepth := regular.depth
        rw [Chain.live, List.cons_append, List.length_cons] at regularDepth
        omega
      have left := regime.good_depth (after.depth - 1) ends.good
      obtain ⟨sameRest, continues⟩ := rest _ left counted
      exact ⟨sameRest, continues.after
        (regime.kept_trans ends.kept (regime.kept_depth after (after.depth - 1)))⟩

theorem unwind_carries (exception : Ref)
    (regular : regime.Regular setup (Chain.live ⟨frame, callers⟩ ++ live) machine) :
    regime.Carries setup first second live machine (unwind exception frame callers) := by
  induction callers generalizing frame machine with
  | nil =>
    rw [Chain.unwind_nil]
    refine offering_carries governs exception regular fun after good _ => ?_
    exact ⟨rfl, .error good (regime.kept_refl _)⟩
  | cons caller rest ih =>
    rw [Chain.unwind_cons]
    exact offering_carries governs exception regular fun after good depth =>
      ih (regular.pop good depth)

variable (twins : regime.Twins machine.depth first second)

include twins

/-- A native or abstract method is called in front of the chain, which then goes on. -/
theorem callBodiless_carries {owner : LinkedClass} {index : Nat}
    (callable : regime.known.Method owner index) (arguments : List Value)
    (regular : regime.Regular setup (Chain.live ⟨frame, callers⟩ ++ live) machine) :
    regime.Carries setup first second live machine
      (callBodiless owner index arguments frame callers) := by
  have same := twins.agree owner index arguments machine callable regular.good rfl
  have ends := twins.ends owner index arguments machine callable regular.good rfl
  have unfolded (invoke : Invoker) :
      (setup.withInvoker invoke).invoke owner index arguments machine =
        invoke owner index arguments machine := rfl
  simp only [Carries, callBodiless, unfolded, same]
  cases called : first owner index arguments machine with
  | ok result after =>
    rw [called] at ends
    have stays := regular.replace ends.good ends.depth regular.mem_live
    obtain ⟨sameRest, continues⟩ := carries_onFrame (hostsAfter_resume result) stays
    exact ⟨sameRest, continues.after ends.kept⟩
  | error interruption after =>
    rw [called] at ends
    have stays := regular.replace ends.good ends.depth regular.mem_live
    cases interruption with
    | thrown exception =>
      obtain ⟨sameRest, continues⟩ := unwind_carries governs exception stays
      exact ⟨sameRest, continues.after ends.kept⟩
    | fatal error => exact ⟨rfl, .error ends.good ends.kept⟩
    | outOfFuel => exact ⟨rfl, .error ends.good ends.kept⟩

theorem call_carries {owner : LinkedClass} {index : Nat}
    (callable : regime.known.Method owner index) (arguments : List Value)
    (regular : regime.Regular setup (Chain.live ⟨frame, callers⟩ ++ live) machine) :
    regime.Carries setup first second live machine
      (call owner index arguments frame callers) := by
  unfold call
  cases owner.method? index with
  | none => exact ⟨rfl, .error regular.good (regime.kept_refl _)⟩
  | some method =>
    dsimp only
    split
    · exact callBodiless_carries governs twins callable arguments regular
    have limits (invoke : Invoker) : (setup.withInvoker invoke).limits = setup.limits := rfl
    simp only [Carries, Bind.bind, ReaderT.bind, EStateM.bind, enter_eq, limits]
    by_cases deep : machine.depth ≥ setup.limits.callDepth
    · rw [if_pos deep]
      exact ⟨rfl, .error regular.good (regime.kept_refl _)⟩
    rw [if_neg deep]
    have kept := regime.kept_depth machine (machine.depth + 1)
    cases entered : Frame.enter owner index arguments with
    | error error => exact ⟨rfl, .error (regime.good_depth _ regular.good) kept⟩
    | ok callee =>
      refine ⟨rfl, .ok (regular.push deep fun each same => ?_) kept⟩
      cases same
      exact hosts_of_enter callable entered

omit twins governs in
/-- A frame that ends leaves one call less in progress, and its caller goes on. -/
theorem finish_carriesOn (result : Option Value)
    (regular : regime.Regular setup (Chain.live ⟨frame, callers⟩ ++ live) machine) :
    regime.CarriesOn setup first second live machine (finish result callers) := by
  have left := regime.good_depth (machine.depth - 1) regular.good
  have kept := regime.kept_depth machine (machine.depth - 1)
  cases callers with
  | nil => exact ⟨rfl, .finished left kept⟩
  | cons caller rest =>
    have counted : machine.depth - 1 + 1 = machine.depth := by
      have depth := regular.depth
      rw [Chain.live, List.cons_append, List.length_cons] at depth
      omega
    have resumed : regime.Carries setup first second live _ _ :=
      carries_onFrame (hostsAfter_resume result) (regular.pop left counted)
    have goesOn := resumed.carriesOn
    rw [bind_assoc] at goesOn
    exact ⟨goesOn.1, goesOn.2.after kept⟩

/-- **One step of a chain** stays in the regime, and does the same whether it is watched or not. -/
theorem advance_carriesOn
    (regular : regime.Regular setup (Chain.live ⟨frame, callers⟩ ++ live) machine) :
    regime.CarriesOn setup first second live machine (advance ⟨frame, callers⟩) := by
  obtain ⟨same, ends, given⟩ := governs.instruction _ first second twins
    ⟨machine, frame, frame.pc⟩ regular.good rfl regular.mem_live
  have keeps := Step.keeps_instruction (setup.withInvoker first) ⟨machine, frame, frame.pc⟩
  simp only [CarriesOn, advance, same]
  cases stepped : Step.instruction (setup.withInvoker first) ⟨machine, frame, frame.pc⟩ with
  | ok next after =>
    rw [stepped] at ends keeps given
    have hosts : regime.Hosts after.frame := regular.mem_live.keeps keeps
    cases next with
    | proceed =>
      exact ⟨rfl, .running (regular.replace ends.good ends.depth (hosts.move after.cursor)) ends.kept⟩
    | call owner index arguments =>
      have callable : regime.known.Method owner index := given _ _ rfl
      have pending : regime.Hosts { after.frame with resumePc := after.cursor } :=
        ⟨⟨hosts.bounded.stack, hosts.bounded.locals⟩, hosts.method⟩
      have stays := regular.replace ends.good ends.depth pending
      have twinsAfter : regime.Twins after.machine.depth first second := ends.depth.symm ▸ twins
      have called := call_carries governs twinsAfter callable arguments stays
      obtain ⟨sameRest, advances⟩ := called.carriesOn
      exact ⟨sameRest, advances.after ends.kept⟩
    | finish result =>
      have finished : regime.CarriesOn setup first second live after.machine _ :=
        finish_carriesOn result (regular.replace ends.good ends.depth hosts)
      exact ⟨finished.1, finished.2.after ends.kept⟩
  | error interruption after =>
    rw [stepped] at ends keeps
    have hosts : regime.Hosts after.frame := regular.mem_live.keeps keeps
    have stays := regular.replace ends.good ends.depth hosts
    cases interruption with
    | thrown exception =>
      have unwound : regime.Carries setup first second live after.machine _ :=
        unwind_carries governs exception stays
      obtain ⟨sameRest, advances⟩ := unwound.carriesOn
      exact ⟨sameRest, advances.after ends.kept⟩
    | fatal error => exact ⟨rfl, .error ends.good ends.kept⟩
    | outOfFuel => exact ⟨rfl, .error ends.good ends.kept⟩

end Governed

end Parts

/-! ## Whole runs -/

/-- What has begun with a machine has ended within the regime, whatever number of calls it counts. -/
structure Closes (regime : Regime) {α : Type} (before : Machine)
    (result : EStateM.Result Interruption Machine α) : Prop where
  good : regime.good (endState result)
  kept : regime.kept before (endState result)

theorem Ends.closes {α : Type} {calls : Nat} {gives : α → Prop} {before : Machine}
    {result : EStateM.Result Interruption Machine α}
    (ends : regime.Ends calls gives before result) : regime.Closes before result :=
  ⟨ends.good, ends.kept⟩

theorem Advances.closes {live : List Activation} {before : Machine}
    {result : EStateM.Result Interruption Machine Progress}
    (advances : regime.Advances setup live before result) : regime.Closes before result := by
  cases advances with
  | running regular kept => exact ⟨regular.good, kept⟩
  | finished good kept => exact ⟨good, kept⟩
  | error good kept => exact ⟨good, kept⟩

/-- Two actions that do the same do so if they are settled in the same way, with a number of calls
that is right again. -/
theorem Closes.settled {α : Type} {before machine : Machine} {action other : Exec α}
    {services services' : Services} {calls : Nat}
    (closes : regime.Closes before (action services machine))
    (same : other services' machine = action services machine) (settle : Machine → Machine)
    (settles : settle (endState (action services machine)) =
      { endState (action services machine) with depth := calls }) :
    settling other settle services' machine = settling action settle services machine ∧
      regime.Ends calls anything before (settling action settle services machine) := by
  obtain ⟨good, kept⟩ := closes
  have kept := regime.kept_trans kept (regime.kept_depth _ calls)
  have good := regime.good_depth calls good
  rw [← settles] at good kept
  have depth : (settle (endState (action services machine))).depth = calls := by
    rw [settles]
  unfold settling
  rw [same]
  cases ended : action services machine with
  | ok value after =>
    rw [ended] at good kept depth
    exact ⟨rfl, good, depth, kept, fun _ _ _ => trivial⟩
  | error interruption after =>
    rw [ended] at good kept depth
    exact ⟨rfl, good, depth, kept, fun _ _ => nofun⟩

/-- A watcher that stops a run only where what the regime says does not hold. -/
def Trusts (regime : Regime) (setup : Setup) (watcher : Watcher) : Prop :=
  ∀ live machine, watcher live machine = true → ¬ regime.Regular setup live machine

theorem lookup_map_snd {α β : Type} (f : α → β) (key : NativeKey)
    (entries : List (NativeKey × α)) :
    (entries.map fun entry => (entry.1, f entry.2)).lookup key = (entries.lookup key).map f := by
  induction entries with
  | nil => rfl
  | cons entry rest ih =>
    rw [List.map_cons, List.lookup_cons, List.lookup_cons, ih]
    cases key == entry.1 <;> rfl

section Runs

variable (governs : regime.Governs setup) {watcher : Watcher}
  (trusts : regime.Trusts setup watcher)

include trusts

theorem Trusts.look_eq {live : List Activation} {services : Services} {machine : Machine}
    (regular : regime.Regular setup live machine) :
    Watched.look watcher live services machine = .ok () machine := by
  unfold Watched.look
  by_cases stops : watcher live machine = true
  · exact absurd regular (trusts live machine stops)
  · rw [if_neg stops]

include governs

/-- **A run that is watched is the run itself**, and it closes within the regime. -/
theorem run_closes {live : List Activation} {first : Invoker} {second : List Activation → Invoker}
    (twins : ∀ live machine, regime.Regular setup live machine →
      regime.Twins live.length first (second live)) (services : Services) (fuel : Nat)
    (chain : Chain) (machine : Machine)
    (regular : regime.Regular setup (chain.live ++ live) machine) :
    Watched.run watcher (fun live => setup.withInvoker (second live)) live fuel chain services
        machine = Execution.run fuel chain (setup.withInvoker first) machine ∧
      regime.Closes machine (Execution.run fuel chain (setup.withInvoker first) machine) := by
  induction fuel generalizing chain machine with
  | zero => exact ⟨rfl, regular.good, regime.kept_refl _⟩
  | succ fuel ih =>
    obtain ⟨frame, callers⟩ := chain
    have here := twins _ machine regular
    rw [← regular.depth] at here
    obtain ⟨same, advances⟩ := advance_carriesOn governs here regular
    rw [Watched.run, Operation.bind_of_ok (trusts.look_eq regular), Chain.run_succ]
    simp only [Bind.bind, ReaderT.bind, EStateM.bind, Watched.within, same]
    generalize advance ⟨frame, callers⟩ (setup.withInvoker first) machine = advanced at advances
    cases advances with
    | running regular kept =>
      obtain ⟨sameRest, closes⟩ := ih _ _ regular
      exact ⟨sameRest, closes.good, regime.kept_trans kept closes.kept⟩
    | finished good kept => exact ⟨rfl, good, kept⟩
    | error good kept => exact ⟨rfl, good, kept⟩

/-- A native method that is watched when it begins is the method itself. -/
theorem native_ends {live : List Activation} {first : Invoker}
    {second : List Activation → Invoker} {owner : LinkedClass} {method : Method}
    (arguments : List Value) {machine : Machine} (isKnown : regime.known.Class owner)
    (regular : regime.Regular setup (.native owner method :: live) machine)
    (twins : regime.Twins (live.length + 1) first (second (.native owner method :: live)))
    {function : NativeFunction}
    (member : (⟨owner.name, method.name, method.descriptorText⟩, function) ∈ setup.natives)
    (services : Services) :
    Watched.native watcher (fun live => setup.withInvoker (second live)) live function
        ⟨owner, method, arguments⟩ services machine =
        function ⟨owner, method, arguments⟩ (setup.withInvoker first) machine ∧
      regime.Ends machine.depth anything machine
        (function ⟨owner, method, arguments⟩ (setup.withInvoker first) machine) := by
  have depth : machine.depth = live.length + 1 := regular.depth
  rw [← depth] at twins
  rw [Watched.native, Operation.bind_of_ok (trusts.look_eq regular)]
  exact governs.natives _ member ⟨owner, method, arguments⟩ ⟨isKnown, rfl⟩ _ _ _ twins machine
    regular.good rfl

theorem runNative_ends {live : List Activation} {first : Invoker}
    {second : List Activation → Invoker}
    (twins : ∀ live machine, regime.Regular setup live machine →
      regime.Twins live.length first (second live))
    {owner : LinkedClass} (isKnown : regime.known.Class owner) (method : Method)
    (arguments : List Value) {machine : Machine} (regular : regime.Regular setup live machine) :
    let watched := setup.natives.map fun entry =>
      (entry.1, Watched.native watcher (fun live => setup.withInvoker (second live)) live entry.2)
    Execution.runNative watched owner method arguments (setup.withInvoker (second live)) machine =
        Execution.runNative setup.natives owner method arguments (setup.withInvoker first) machine ∧
      regime.Ends machine.depth anything machine
        (Execution.runNative setup.natives owner method arguments (setup.withInvoker first)
          machine) := by
  have limits (invoke : Invoker) : (setup.withInvoker invoke).limits = setup.limits := rfl
  unfold Execution.runNative
  simp only [Bind.bind, ReaderT.bind, EStateM.bind, enter_eq, limits]
  by_cases deep : machine.depth ≥ setup.limits.callDepth
  · rw [if_pos deep]
    exact ⟨rfl, regular.good, rfl, regime.kept_refl _, fun _ _ => nofun⟩
  rw [if_neg deep, lookup_map_snd]
  have begun : regime.Regular setup (.native owner method :: live)
      { machine with depth := machine.depth + 1 } := regular.push deep nofun
  -- However the method ends, the call that was counted for it is counted off.
  have counted {action other : Exec (Option Value)}
      (same : other (setup.withInvoker (second live)) { machine with depth := machine.depth + 1 } =
        action (setup.withInvoker first) { machine with depth := machine.depth + 1 })
      (ends : regime.Ends (machine.depth + 1) anything { machine with depth := machine.depth + 1 }
        (action (setup.withInvoker first) { machine with depth := machine.depth + 1 })) :=
    have closes := (ends.after (regime.kept_depth machine (machine.depth + 1))).closes
    have depth : (endState (action (setup.withInvoker first)
        { machine with depth := machine.depth + 1 })).depth = machine.depth + 1 := ends.depth
    closes.settled same (fun after => { after with depth := after.depth - 1 })
      (by rw [depth, Nat.add_sub_cancel])
  cases found : setup.natives.lookup ⟨owner.name, method.name, method.descriptorText⟩ with
  | none => exact counted rfl ⟨begun.good, rfl, regime.kept_refl _, fun _ _ => nofun⟩
  | some function =>
    obtain ⟨before, after, natives, -⟩ := List.lookup_eq_some_iff.mp found
    have member : (⟨owner.name, method.name, method.descriptorText⟩, function) ∈ setup.natives :=
      natives ▸ List.mem_append_right before List.mem_cons_self
    obtain ⟨same, ends⟩ := native_ends governs trusts (Value.ofSlots arguments) isKnown begun
      (twins _ _ begun) member (setup.withInvoker (second live))
    exact counted same ends

/-- A call of a method with code runs a chain of one frame. -/
theorem runCode_ends {live : List Activation} {first : Invoker}
    {second : List Activation → Invoker}
    (twins : ∀ live machine, regime.Regular setup live machine →
      regime.Twins live.length first (second live)) (fuel : Nat)
    {owner : LinkedClass} {index : Nat} (callable : regime.known.Method owner index)
    (arguments : List Value) {machine : Machine} (regular : regime.Regular setup live machine) :
    let watched := Watched.run watcher (fun live => setup.withInvoker (second live)) live fuel
    Execution.runCode watched owner index arguments (setup.withInvoker (second live)) machine =
        Execution.runCode (Execution.run fuel) owner index arguments (setup.withInvoker first)
          machine ∧
      regime.Ends machine.depth anything machine
        (Execution.runCode (Execution.run fuel) owner index arguments (setup.withInvoker first)
          machine) := by
  intro watched
  have limits (invoke : Invoker) : (setup.withInvoker invoke).limits = setup.limits := rfl
  unfold Execution.runCode
  cases entered : Frame.enter owner index arguments with
  | error error => exact ⟨rfl, regular.good, rfl, regime.kept_refl _, fun _ _ => nofun⟩
  | ok callee =>
    have ran :
        (do enter; watched ⟨callee, []⟩ : Exec (Option Value)) (setup.withInvoker (second live))
            machine =
          (do enter; Execution.run fuel ⟨callee, []⟩ : Exec (Option Value))
            (setup.withInvoker first) machine ∧
        regime.Closes machine ((do enter; Execution.run fuel ⟨callee, []⟩ : Exec (Option Value))
          (setup.withInvoker first) machine) := by
      simp only [Bind.bind, ReaderT.bind, EStateM.bind, enter_eq, limits]
      by_cases deep : machine.depth ≥ setup.limits.callDepth
      · rw [if_pos deep]
        exact ⟨rfl, regular.good, regime.kept_refl _⟩
      rw [if_neg deep]
      have begun : regime.Regular setup (Chain.live ⟨callee, []⟩ ++ live)
          { machine with depth := machine.depth + 1 } := by
        refine regular.push deep fun frame same => ?_
        cases same
        exact hosts_of_enter callable entered
      obtain ⟨same, closes⟩ := run_closes governs trusts twins (setup.withInvoker (second live))
        fuel ⟨callee, []⟩ _ begun
      exact ⟨same, closes.good,
        regime.kept_trans (regime.kept_depth machine (machine.depth + 1)) closes.kept⟩
    exact ran.2.settled ran.1 (fun after => { after with depth := machine.depth }) rfl

theorem invoke_ends {live : List Activation} {first : Invoker}
    {second : List Activation → Invoker}
    (twins : ∀ live machine, regime.Regular setup live machine →
      regime.Twins live.length first (second live)) (fuel : Nat)
    {owner : LinkedClass} {index : Nat} (callable : regime.known.Method owner index)
    (arguments : List Value) {machine : Machine} (regular : regime.Regular setup live machine) :
    let inner := fun live => setup.withInvoker (second live)
    let natives := setup.natives.map fun entry =>
      (entry.1, Watched.native watcher inner live entry.2)
    Execution.invoke natives (Watched.run watcher inner live fuel) owner index arguments
        (inner live) machine =
        Execution.invoke setup.natives (Execution.run fuel) owner index arguments
          (setup.withInvoker first) machine ∧
      regime.Ends machine.depth anything machine
        (Execution.invoke setup.natives (Execution.run fuel) owner index arguments
          (setup.withInvoker first) machine) := by
  intro inner natives
  unfold Execution.invoke
  cases owner.method? index with
  | none => exact ⟨rfl, regular.good, rfl, regime.kept_refl _, fun _ _ => nofun⟩
  | some method =>
    dsimp only
    split
    · exact ⟨rfl, regular.good, rfl, regime.kept_refl _, fun _ _ => nofun⟩
    · split
      · have isKnown := regime.known.owner callable
        exact runNative_ends governs trusts twins isKnown method arguments regular
      · exact runCode_ends governs trusts twins fuel callable arguments regular

/-- **A watcher that trusts the regime makes no difference to any call**, and every call ends within
the regime and with as many calls in progress as it began with. -/
theorem Governs.twins (fuel : Nat) {live : List Activation} {machine : Machine}
    (regular : regime.Regular setup live machine) :
    regime.Twins live.length (setup.services fuel).invoke
      (setup.watched watcher fuel live).invoke := by
  induction fuel generalizing live machine with
  | zero =>
    refine ⟨fun _ _ _ _ _ _ _ => rfl, fun _ _ _ _ _ good depth => ?_⟩
    exact ⟨good, depth, regime.kept_refl _, fun _ _ => nofun⟩
  | succ fuel ih =>
    have inner (live : List Activation) (machine : Machine)
        (regular : regime.Regular setup live machine) :
        regime.Twins live.length (setup.services fuel).invoke
          (setup.watched watcher fuel live).invoke :=
      ih regular
    have both (owner : LinkedClass) (index : Nat) (arguments : List Value) (start : Machine)
        (callable : regime.known.Method owner index) (good : regime.good start)
        (depth : start.depth = live.length) :=
      invoke_ends governs trusts inner fuel callable arguments
        ⟨good, depth, regular.limit, regular.hosts⟩
    simp only [Setup.withInvoker_services, Setup.withInvoker_watched] at both
    refine ⟨fun owner index arguments start callable good depth => ?_,
      fun owner index arguments start callable good depth => ?_⟩
    · exact (both owner index arguments start callable good depth).1
    · rw [← depth]
      exact (both owner index arguments start callable good depth).2

/-- So it makes none to an action that follows the regime. -/
theorem Governs.watched_eq {α : Type} {gives : α → Prop} {action : Exec α}
    (follows : regime.Follows setup gives action) (fuel : Nat) {live : List Activation}
    {machine : Machine} (regular : regime.Regular setup live machine) :
    action (setup.watched watcher fuel live) machine = action (setup.services fuel) machine ∧
      regime.Ends machine.depth gives machine (action (setup.services fuel) machine) := by
  have twins := governs.twins trusts fuel regular
  rw [← regular.depth] at twins
  have both := follows _ _ _ twins machine regular.good rfl
  rw [Setup.withInvoker_services, Setup.withInvoker_watched] at both
  exact both

end Runs

/-- **From every regular moment an instruction leads to another one**, to the end of its chain or to
an interruption. -/
theorem Governs.advances (governs : regime.Governs setup) (fuel : Nat) {chain : Chain}
    {live : List Activation} {machine : Machine}
    (regular : regime.Regular setup (chain.live ++ live) machine) :
    regime.Advances setup live machine (advance chain (setup.services fuel) machine) := by
  have trusts : regime.Trusts setup fun _ _ => false := fun _ _ stops => by cases stops
  have twins := governs.twins trusts fuel regular
  rw [← regular.depth] at twins
  have advances := (advance_carriesOn governs twins regular).2
  rw [Setup.withInvoker_services] at advances
  exact advances

end Regime

end JavaMachine
