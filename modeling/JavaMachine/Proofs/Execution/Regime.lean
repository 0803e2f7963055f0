import JavaMachine.Machine.Execution
import JavaMachine.Proofs.Machine.Guarded

/-! # Regimes

A regime says what is to hold of the machine wherever a run may be looked at, what is kept from one
such moment to a later one, and which methods are called. An action follows a regime if it stays in
it whenever its calls do. It then also does not tell apart two ways of making calls that do the same
from where the regime lets calls start: this is what makes it possible to look at a run from inside
without changing it. -/

namespace JavaMachine

open MachineState (machine)

/-- What holds of the machine, what is kept and what is known, above all of the methods that are
called, while something is done. How many calls are in progress is counted apart from it. -/
structure Regime where
  good : Machine → Prop
  kept : Machine → Machine → Prop
  known : Knowledge
  kept_refl (machine : Machine) : kept machine machine
  kept_trans {before between after : Machine} (near : kept before between)
    (far : kept between after) : kept before after
  good_depth {machine : Machine} (depth : Nat) (holds : good machine) :
    good { machine with depth }
  kept_depth (machine : Machine) (depth : Nat) : kept machine { machine with depth }

namespace Regime

variable (regime : Regime) (setup : Setup)

/-- What has begun with a machine has ended within the regime, with so many calls in progress, and
with nothing but what it is to give. -/
structure Ends {σ α : Type} [MachineState σ] (calls : Nat) (gives : α → Prop) (before : Machine)
    (result : EStateM.Result Interruption σ α) : Prop where
  good : regime.good (machine (endState result))
  depth : (machine (endState result)).depth = calls
  kept : regime.kept before (machine (endState result))
  given (value : α) (after : σ) (ended : result = .ok value after) : gives value

/-- Two ways of making calls that do the same, within the regime, wherever so many calls are in
progress, and leave as many in progress. -/
structure Twins (calls : Nat) (first second : Invoker) : Prop where
  agree (owner : LinkedClass) (index : Nat) (arguments : List Value) (machine : Machine)
    (callable : regime.known.Method owner index) (good : regime.good machine)
    (depth : machine.depth = calls) :
    second owner index arguments machine = first owner index arguments machine
  ends (owner : LinkedClass) (index : Nat) (arguments : List Value) (machine : Machine)
    (callable : regime.known.Method owner index) (good : regime.good machine)
    (depth : machine.depth = calls) :
    regime.Ends calls anything machine (first owner index arguments machine)

/-- Something that stays in the regime, leaves as many calls in progress as there were, gives
nothing but what it is to give, and does not tell twins apart. -/
def Follows {σ α : Type} [MachineState σ] (gives : α → Prop) (operation : Operation σ α) : Prop :=
  ∀ calls first second, regime.Twins calls first second →
    ∀ state : σ, regime.good (machine state) → (machine state).depth = calls →
      operation (setup.withInvoker second) state = operation (setup.withInvoker first) state ∧
        regime.Ends calls gives (machine state) (operation (setup.withInvoker first) state)

section Follows

variable {regime setup} {σ α β : Type} [MachineState σ] {gives : α → Prop} {wanted : β → Prop}

theorem Ends.weaken {calls : Nat} {before : Machine} {result : EStateM.Result Interruption σ α}
    (ends : regime.Ends calls gives before result) {weaker : α → Prop}
    (imply : ∀ value, gives value → weaker value) : regime.Ends calls weaker before result :=
  ⟨ends.good, ends.depth, ends.kept, fun value after ended =>
    imply value (ends.given value after ended)⟩

/-- What comes after something that ended within the regime. -/
theorem Ends.after {calls : Nat} {before between : Machine}
    {result : EStateM.Result Interruption σ α} (kept : regime.kept before between)
    (ends : regime.Ends calls gives between result) : regime.Ends calls gives before result :=
  ⟨ends.good, ends.depth, regime.kept_trans kept ends.kept, ends.given⟩

/-- What was interrupted gives nothing, whatever it was to give. -/
theorem Ends.interrupted {calls : Nat} {before : Machine} {interruption : Interruption} {after : σ}
    (ends : regime.Ends calls gives before
      (.error interruption after : EStateM.Result Interruption σ α)) :
    regime.Ends calls wanted before
      (.error interruption after : EStateM.Result Interruption σ β) :=
  ⟨ends.good, ends.depth, ends.kept, fun _ _ ended => by cases ended⟩

/-- What makes no calls follows the regime if it stays in it. -/
theorem follows_of_callFree {operation : Operation σ α}
    (callFree : ∀ invoke invoke' state,
      operation (setup.withInvoker invoke') state = operation (setup.withInvoker invoke) state)
    (ends : ∀ invoke state, regime.good (machine state) →
      regime.Ends (machine state).depth gives (machine state)
        (operation (setup.withInvoker invoke) state)) : regime.Follows setup gives operation := by
  rintro _ first second - state good rfl
  exact ⟨callFree first second state, ends first state good⟩

theorem follows_pure {value : α} (given : gives value) :
    regime.Follows setup gives (pure value : Operation σ α) := by
  refine follows_of_callFree (fun _ _ _ => rfl) fun _ state good => ?_
  refine ⟨good, rfl, regime.kept_refl _, fun other after ended => ?_⟩
  cases ended
  exact given

theorem follows_throw (interruption : Interruption) :
    regime.Follows setup gives (throw interruption : Operation σ α) :=
  follows_of_callFree (fun _ _ _ => rfl) fun _ _ good =>
    ⟨good, rfl, regime.kept_refl _, fun _ _ => nofun⟩

theorem Follows.bind {operation : Operation σ α} {next : α → Operation σ β}
    (first : regime.Follows setup gives operation)
    (rest : ∀ value, gives value → regime.Follows setup wanted (next value)) :
    regime.Follows setup wanted (operation >>= next) := by
  intro calls one other twins state good depth
  obtain ⟨same, ends⟩ := first calls one other twins state good depth
  simp only [Bind.bind, ReaderT.bind, EStateM.bind, same]
  cases ended : operation (setup.withInvoker one) state with
  | ok value after =>
    rw [ended] at ends
    obtain ⟨sameRest, endsRest⟩ :=
      rest value (ends.given value after rfl) calls one other twins after ends.good ends.depth
    exact ⟨sameRest, endsRest.after ends.kept⟩
  | error interruption after =>
    rw [ended] at ends
    exact ⟨rfl, ends.interrupted⟩

theorem Follows.tryCatch {operation : Operation σ α} {handle : Interruption → Operation σ α}
    (first : regime.Follows setup gives operation)
    (rest : ∀ interruption, regime.Follows setup gives (handle interruption)) :
    regime.Follows setup gives (tryCatch operation handle) := by
  intro calls one other twins state good depth
  obtain ⟨same, ends⟩ := first calls one other twins state good depth
  simp only [MonadExcept.tryCatch, tryCatchThe, MonadExceptOf.tryCatch, EStateM.tryCatch, same]
  cases ended : operation (setup.withInvoker one) state with
  | ok value after =>
    rw [ended] at ends
    exact ⟨rfl, ends⟩
  | error interruption after =>
    rw [ended] at ends
    obtain ⟨sameRest, endsRest⟩ :=
      rest interruption calls one other twins after ends.good ends.depth
    exact ⟨sameRest, endsRest.after ends.kept⟩

theorem Follows.weaken {operation : Operation σ α} (follows : regime.Follows setup gives operation)
    {weaker : α → Prop} (imply : ∀ value, gives value → weaker value) :
    regime.Follows setup weaker operation := by
  intro calls one other twins state good depth
  obtain ⟨same, ends⟩ := follows calls one other twins state good depth
  exact ⟨same, ends.weaken imply⟩

end Follows

/-! ## What holds in between

Where it matters what the machine holds when a part of something begins, and what it holds then, both
are said of the part. -/

/-- Something that, begun in a state of which something holds, follows the regime and ends with
something that holds of what it gives and of the state. -/
def Leads {σ α : Type} [MachineState σ] (begins : σ → Prop) (operation : Operation σ α)
    (ends : α → σ → Prop) : Prop :=
  ∀ calls first second, regime.Twins calls first second →
    ∀ state : σ, regime.good (machine state) → (machine state).depth = calls → begins state →
      operation (setup.withInvoker second) state = operation (setup.withInvoker first) state ∧
        regime.Ends calls anything (machine state) (operation (setup.withInvoker first) state) ∧
        ∀ value after, operation (setup.withInvoker first) state = .ok value after →
          ends value after

section Leads

variable {regime setup} {σ α β : Type} [MachineState σ] {begins : σ → Prop} {gives : α → Prop}
  {ends : α → σ → Prop} {settled : β → σ → Prop} {operation : Operation σ α}

theorem Follows.leads (follows : regime.Follows setup gives operation) :
    regime.Leads setup begins operation fun value _ => gives value := by
  intro calls first second twins state good depth _
  obtain ⟨same, within⟩ := follows calls first second twins state good depth
  exact ⟨same, within.weaken fun _ _ => trivial, within.given⟩

/-- What follows the regime leads on, if nothing is wanted of it. -/
theorem Follows.done (follows : regime.Follows setup anything operation) :
    regime.Leads setup begins operation fun _ _ => True :=
  follows.leads

theorem Leads.follows
    (leads : regime.Leads setup (fun _ => True) operation fun value _ => gives value) :
    regime.Follows setup gives operation := by
  intro calls first second twins state good depth
  obtain ⟨same, within, given⟩ := leads calls first second twins state good depth trivial
  exact ⟨same, within.good, within.depth, within.kept, given⟩

theorem Leads.weaken (leads : regime.Leads setup begins operation ends) {earlier : σ → Prop}
    {later : α → σ → Prop} (before : ∀ state, earlier state → begins state)
    (after : ∀ value state, ends value state → later value state) :
    regime.Leads setup earlier operation later := by
  intro calls first second twins state good depth holds
  obtain ⟨same, within, given⟩ := leads calls first second twins state good depth (before state holds)
  exact ⟨same, within, fun value state ended => after value state (given value state ended)⟩

/-- What the regime keeps still holds afterwards. -/
theorem Leads.keeps (leads : regime.Leads setup begins operation ends) {stays : σ → Prop}
    (kept : ∀ before after, stays before → regime.good (machine before) →
      regime.kept (machine before) (machine after) → stays after) :
    regime.Leads setup (fun state => begins state ∧ stays state) operation fun value state =>
      ends value state ∧ stays state := by
  intro calls first second twins state good depth holds
  obtain ⟨same, within, given⟩ := leads calls first second twins state good depth holds.1
  refine ⟨same, within, fun value after ended => ⟨given value after ended, ?_⟩⟩
  have keeps := within.kept
  rw [ended] at keeps
  exact kept state after holds.2 good keeps

/-- What an operation shows on its own when it ends well. -/
theorem Leads.shows (leads : regime.Leads setup begins operation ends) {shown : α → σ → Prop}
    (shows : ∀ invoke state value after, begins state →
      operation (setup.withInvoker invoke) state = .ok value after → shown value after) :
    regime.Leads setup begins operation fun value state => ends value state ∧ shown value state := by
  intro calls first second twins state good depth holds
  obtain ⟨same, within, given⟩ := leads calls first second twins state good depth holds
  exact ⟨same, within, fun value after ended =>
    ⟨given value after ended, shows first state value after holds ended⟩⟩

theorem leads_pure {value : α} (given : ∀ state, begins state → ends value state) :
    regime.Leads setup begins (pure value : Operation σ α) ends := by
  intro calls first second _ state good depth holds
  refine ⟨rfl, ⟨good, depth, regime.kept_refl _, fun _ _ _ => trivial⟩, fun other after ended => ?_⟩
  cases ended
  exact given state holds

theorem leads_throw (interruption : Interruption) :
    regime.Leads setup begins (throw interruption : Operation σ α) fun _ _ => False := by
  intro calls first second _ state good depth _
  refine ⟨rfl, ⟨good, depth, regime.kept_refl _, fun _ _ _ => trivial⟩, fun _ _ ended => ?_⟩
  cases ended

/-- What holds whatever the state is can be taken for granted. -/
theorem leads_of_fact {fact : Prop} (leads : fact → regime.Leads setup begins operation ends) :
    regime.Leads setup (fun state => fact ∧ begins state) operation ends :=
  fun calls first second twins state good depth holds =>
    leads holds.1 calls first second twins state good depth holds.2

theorem Leads.bind {next : α → Operation σ β} (leads : regime.Leads setup begins operation ends)
    (rest : ∀ value, regime.Leads setup (ends value) (next value) settled) :
    regime.Leads setup begins (operation >>= next) settled := by
  intro calls one other twins state good depth holds
  obtain ⟨same, within, given⟩ := leads calls one other twins state good depth holds
  simp only [Bind.bind, ReaderT.bind, EStateM.bind, same]
  cases ended : operation (setup.withInvoker one) state with
  | ok value after =>
    rw [ended] at within
    obtain ⟨sameRest, withinRest, givenRest⟩ := rest value calls one other twins after within.good
      within.depth (given value after ended)
    exact ⟨sameRest, withinRest.after within.kept, givenRest⟩
  | error interruption after =>
    rw [ended] at within
    exact ⟨rfl, within.interrupted, fun _ _ => nofun⟩

end Leads

/-! ## Actions of the machine -/

section Exec

variable {regime setup} {α : Type} {gives : α → Prop}

theorem follows_get : regime.Follows setup anything (get : Exec Machine) :=
  follows_of_callFree (fun _ _ _ => rfl) fun _ _ good =>
    ⟨good, rfl, regime.kept_refl _, fun _ _ _ => trivial⟩

theorem follows_classState (c : LinkedClass) :
    regime.Follows setup anything (Exec.classState c) :=
  follows_get.bind fun _ _ => follows_pure trivial

theorem follows_invoke {owner : LinkedClass} {index : Nat} (callable : regime.known.Method owner index)
    (arguments : List Value) :
    regime.Follows setup anything (Exec.invoke owner index arguments) := by
  intro calls first second twins machine good depth
  exact ⟨twins.agree owner index arguments machine callable good depth,
    twins.ends owner index arguments machine callable good depth⟩

/-- A change of the machine that is none to the regime. -/
theorem follows_modify {change : Machine → Machine}
    (good : ∀ machine, regime.good machine → regime.good (change machine))
    (depth : ∀ machine, (change machine).depth = machine.depth)
    (kept : ∀ machine, regime.good machine → regime.kept machine (change machine)) :
    regime.Follows setup anything (modify change : Exec Unit) :=
  follows_of_callFree (fun _ _ _ => rfl) fun _ machine holds =>
    ⟨good machine holds, depth machine, kept machine holds, fun _ _ _ => trivial⟩

/-- The initialization of a class follows a regime that is not about how far initializations have
come. -/
theorem follows_initializing
    {c : LinkedClass} (phased : ∀ phase, regime.Follows setup anything (Exec.setPhase c phase))
    (above : regime.Follows setup anything (Exec.ensureInitialized.ofSuperclass c.superclass))
    (within : regime.Follows setup anything (do
      Exec.assignConstants c c.staticFields
      Exec.runInitializer c : Exec Unit)) :
    regime.Follows setup anything (Exec.ensureInitialized c) := by
  obtain ⟨info, superclass, interfaces, element, table⟩ := c
  rw [Exec.ensureInitialized]
  refine (follows_classState _).bind fun state _ => ?_
  split
  · exact follows_pure trivial
  · exact follows_pure trivial
  · exact follows_throw _
  · refine (phased _).bind fun _ _ => ?_
    refine Follows.bind (Follows.tryCatch (above.bind fun _ _ => within) fun interruption => ?_)
      fun _ _ => phased _
    exact (phased _).bind fun _ _ => follows_throw interruption

end Exec

/-! ## Parts of instructions -/

section Step

variable {regime setup} {α : Type} {gives : α → Prop}

theorem follows_onMachine {action : Exec α} (inner : regime.Follows setup gives action) :
    regime.Follows setup gives (Step.onMachine action) := by
  intro calls first second twins state good depth
  obtain ⟨same, ends⟩ := inner calls first second twins state.machine good depth
  unfold Step.onMachine
  dsimp only
  rw [same]
  cases ended : action (setup.withInvoker first) state.machine with
  | ok value after =>
    rw [ended] at ends
    refine ⟨rfl, ends.good, ends.depth, ends.kept, fun other state ended => ?_⟩
    cases ended
    exact ends.given value after rfl
  | error interruption after =>
    rw [ended] at ends
    exact ⟨rfl, ends.good, ends.depth, ends.kept, fun _ _ => nofun⟩

theorem leads_onMachine {action : Exec α} {begins : Machine → Prop} {ends : α → Machine → Prop}
    (inner : regime.Leads setup begins action ends) :
    regime.Leads setup (fun state : StepState => begins state.machine) (Step.onMachine action)
      fun value state => ends value state.machine := by
  intro calls first second twins state good depth holds
  obtain ⟨same, within, given⟩ := inner calls first second twins state.machine good depth holds
  unfold Step.onMachine
  dsimp only
  rw [same]
  cases ended : action (setup.withInvoker first) state.machine with
  | ok value after =>
    rw [ended] at within
    refine ⟨rfl, ⟨within.good, within.depth, within.kept, fun _ _ _ => trivial⟩,
      fun other state ended' => ?_⟩
    cases ended'
    exact given value after ended
  | error interruption after =>
    rw [ended] at within
    exact ⟨rfl, ⟨within.good, within.depth, within.kept, fun _ _ => nofun⟩, fun _ _ => nofun⟩

/-- What leaves the machine alone follows every regime. -/
theorem follows_of_sameMachine {action : Step α}
    (callFree : ∀ invoke invoke' state,
      action (setup.withInvoker invoke') state = action (setup.withInvoker invoke) state)
    (same : ∀ invoke state,
      (endState (action (setup.withInvoker invoke) state)).machine = state.machine) :
    regime.Follows setup anything action := by
  refine follows_of_callFree callFree fun invoke state good => ?_
  have unchanged : machine (endState (action (setup.withInvoker invoke) state)) = machine state :=
    same invoke state
  refine ⟨?_, by rw [unchanged], ?_, fun _ _ _ => trivial⟩
  · rw [unchanged]
    exact good
  · rw [unchanged]
    exact regime.kept_refl _

theorem follows_onFrame (operation : FrameM α) :
    regime.Follows setup anything (Step.onFrame operation) := by
  refine follows_of_sameMachine (fun _ _ _ => rfl) fun _ state => ?_
  simp only [Step.onFrame]
  cases operation state.frame <;> rfl

theorem follows_frame : regime.Follows setup anything Step.frame :=
  follows_of_sameMachine (fun _ _ _ => rfl) fun _ _ => rfl

theorem follows_cursor : regime.Follows setup anything Step.cursor :=
  follows_of_sameMachine (fun _ _ _ => rfl) fun _ _ => rfl

theorem follows_seek (cursor : Nat) : regime.Follows setup anything (Step.seek cursor) :=
  follows_of_sameMachine (fun _ _ _ => rfl) fun _ _ => rfl

theorem follows_arrayLimit :
    regime.Follows setup anything (do return (← read).limits.arrayLength : Step Nat) :=
  follows_of_sameMachine (fun _ _ _ => rfl) fun _ _ => rfl

end Step

end Regime

end JavaMachine
