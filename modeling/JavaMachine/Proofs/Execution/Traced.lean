import JavaMachine.Proofs.Execution.Elements
import JavaMachine.Proofs.Execution.Entries

/-! # Instructions enter fresh initializers only

An instruction and a built-in native method call a method by its key or by a constant. Unless that is
the key of initializers, the method is none (`Knowledge.sealed`), so that initializers are entered by
initializations only. A careful action keeps machines sound, and it can be told from every regular
moment on what it enters, with fresh initializers (`Careful`). All the simplest actions are careful
if the calls are, and so is an initialization, whose own initializer comes after those of the
superclass and before those that it has entered itself. -/

namespace JavaMachine

open Loader (Defines)

/-! ## Methods that are no initializers -/

/-- No class has a constant that refers to an initializer as to a method. -/
def InitializersUnnamed (sources : List ClassSource) : Prop :=
  ∀ c, Defines sources c → ∀ index symbol, c.constant? index = some (.methodref symbol) ∨
    c.constant? index = some (.interfaceMethodref symbol) → symbol.key ≠ initializerKey

section Plain

variable {sources : List ClassSource} {c owner : LinkedClass} {key : String} {index : Nat}
  {method : Method}

theorem Method.plain_of_key_ne (plain : method.key ≠ initializerKey) :
    method.isInitializer = false :=
  Bool.eq_false_of_not_eq_true fun initializes => plain (key_of_isInitializer initializes)

/-- What is found by another key than that of initializers is none. -/
theorem Provided.plain_method (provided : Provided sources c)
    (selected : c.findMethod? key = some (owner, index)) (plain : key ≠ initializerKey) :
    ∃ method, owner.method? index = some method ∧ method.isInitializer = false := by
  obtain ⟨-, inside⟩ := provided.method selected
  refine ⟨owner.methods[index], Array.getElem?_eq_getElem inside, Method.plain_of_key_ne ?_⟩
  rcases provided with defined | rfl
  · obtain ⟨_, sameKey⟩ := defined.tablesBuilt.key_of_findMethod? selected
    rwa [sameKey]
  · rw [LinkedClass.findMethod?_default] at selected
    cases selected

end Plain

/-- The classes that the sources provide, and their methods except those that initialize them. -/
def Knowledge.sealed (sources : List ClassSource) : Knowledge where
  Class := Defines sources
  Named := (provided sources).Named
  Instance := Provided sources
  Key key := key ≠ initializerKey
  Method owner index := Defines sources owner ∧
    ∃ method, owner.method? index = some method ∧ method.isInitializer = false
  Static := (provided sources).Static
  ofNamed := (provided sources).ofNamed
  ofClass := (provided sources).ofClass
  linked isKnown links := isKnown.linksTo_defined links
  key_of_ne plain := plain
  declared isKnown present callable := ⟨isKnown, _, present, Method.plain_of_key_ne callable⟩
  found isKnown callable selected :=
    ⟨(isKnown.method selected).1, isKnown.plain_method selected callable⟩
  owner := And.left
  static := (provided sources).static

theorem Knowledge.provided_of_sealed {sources : List ClassSource} {owner : LinkedClass} {index : Nat}
    (isKnown : (sealed sources).Method owner index) : (provided sources).Method owner index := by
  obtain ⟨defined, method, present, -⟩ := isKnown
  exact ⟨defined, (Array.getElem?_eq_some_iff.mp present).1⟩

/-- The constants of a class, linked to what they stand for, if none refers to an initializer. -/
def Knowledge.Pool.sealed {sources : List ClassSource} (unnamed : InitializersUnnamed sources)
    {c : LinkedClass} (defined : Defines sources c) : (Knowledge.sealed sources).Pool where
  Constant := (resolved sources c).Constant
  Link := (resolved sources c).Link
  linkNamed := (resolved sources c).linkNamed
  linkStatic := (resolved sources c).linkStatic
  linkInstance := (resolved sources c).linkInstance
  linkMethod := (resolved sources c).linkMethod
  named := (resolved sources c).named
  static := (resolved sources c).static
  method link := by
    cases link with
    | method constant providing _ selected =>
      have plain := unnamed c defined _ _ constant
      have provided : Provided sources _ := .inl providing
      exact ⟨(provided.method selected).1, provided.plain_method selected plain⟩
  callable constant := unnamed c defined _ _ constant

/-! ## What is told of parts -/

namespace Regime

open MachineState (machine)
open Exec

section Ends

variable {regime : Regime} {setup : Setup} {σ α : Type} [MachineState σ] {begins : σ → Prop}
  {ends : α → σ → Prop} {operation : Operation σ α} {live : List Activation}

/-- What leads on does so with the calls that the setup makes. -/
theorem Governs.ends_leads (governs : regime.Governs setup)
    (leads : regime.Leads setup begins operation ends) (fuel : Nat) {state : σ}
    (regular : regime.Regular setup live (machine state)) (holds : begins state) :
    regime.Ends (machine state).depth anything (machine state)
        (operation (setup.services fuel) state) ∧
      ∀ value after, operation (setup.services fuel) state = .ok value after → ends value after := by
  have trusts : regime.Trusts setup fun _ _ => false := fun _ _ stops => by cases stops
  have twins := governs.twins trusts fuel regular
  rw [← regular.depth] at twins
  have led := (leads _ _ _ twins state regular.good rfl holds).2
  rw [Setup.withInvoker_services] at led
  exact led

/-- So does what follows the regime. -/
theorem Governs.ends_follows (governs : regime.Governs setup) {gives : α → Prop}
    (follows : regime.Follows setup gives operation) (fuel : Nat) {state : σ}
    (regular : regime.Regular setup live (machine state)) :
    regime.Ends (machine state).depth gives (machine state)
      (operation (setup.services fuel) state) := by
  have leads : regime.Leads setup (fun _ : σ => True) operation fun value _ => gives value :=
    follows.leads
  obtain ⟨within, given⟩ := governs.ends_leads leads fuel
    regular trivial
  exact ⟨within.good, within.depth, within.kept, given⟩

theorem Regular.after {before : Machine} (regular : regime.Regular setup live before)
    {gives : α → Prop} {result : EStateM.Result Interruption σ α}
    (ends : regime.Ends before.depth gives before result) :
    regime.Regular setup live (machine (endState result)) :=
  ⟨ends.good, ends.depth.trans regular.depth, regular.limit, regular.hosts⟩

end Ends

variable {setup : Setup} {start : Heap} {fuel : Nat} {owner c : LinkedClass} {α β : Type}

/-- It can be told what an action enters wherever it begins so. -/
def TracedFrom (setup : Setup) (start : Heap) (fuel : Nat) (begins : Machine → Prop)
    (action : Exec α) : Prop :=
  ∀ live machine, (sound setup start).Regular setup live machine → begins machine →
    Traced setup fuel action machine

/-- It can be told what a part of an instruction enters wherever it begins so. -/
def TracedIn (setup : Setup) (start : Heap) (fuel : Nat) (begins : StepState → Prop)
    (step : Step α) : Prop :=
  ∀ live state, (sound setup start).Regular setup live state.machine → begins state →
    Traced setup fuel (step.detached state.frame state.cursor) state.machine

section Parts

variable {begins : Machine → Prop} {ends : α → Machine → Prop} {action : Exec α}
  {next : α → Exec β}

theorem TracedFrom.weaken (traced : TracedFrom setup start fuel begins action)
    {earlier : Machine → Prop} (before : ∀ machine, earlier machine → begins machine) :
    TracedFrom setup start fuel earlier action :=
  fun live machine regular holds => traced live machine regular (before machine holds)

/-- What holds whatever the machine is can be taken for granted. -/
theorem tracedFrom_of_fact {fact : Prop} (traced : fact → TracedFrom setup start fuel begins action) :
    TracedFrom setup start fuel (fun machine => fact ∧ begins machine) action :=
  fun live machine regular holds => traced holds.1 live machine regular holds.2

theorem tracedFrom_of_callFree (callFree : CallFree setup action) (charted : Charted setup 0 action) :
    TracedFrom setup start fuel begins action :=
  fun _ _ _ _ => .of_callFree callFree charted

variable (governs : (sound setup start).Governs setup)

include governs

theorem TracedFrom.bind (first : TracedFrom setup start fuel begins action)
    (leads : (sound setup start).Leads setup begins action ends)
    (rest : ∀ value, TracedFrom setup start fuel (ends value) (next value)) :
    TracedFrom setup start fuel begins (action >>= next) := by
  intro live machine regular holds
  obtain ⟨within, given⟩ := governs.ends_leads leads fuel regular holds
  refine (first live machine regular holds).bind fun value after ended => ?_
  have regularAfter := regular.after within
  rw [ended] at regularAfter
  exact rest value live after regularAfter (given value after ended)

end Parts

section StepParts

variable {begins : StepState → Prop} {ends : α → StepState → Prop} {step : Step α}
  {next : α → Step β}

theorem tracedIn_of_callFree (callFree : CallFree setup step)
    (charted : ∀ frame cursor, Charted setup 0 (step.detached frame cursor)) :
    TracedIn setup start fuel begins step := by
  intro _ state _ _
  refine .of_callFree (fun first second machine => ?_) (charted state.frame state.cursor)
  simp only [Step.detached, callFree first second]

theorem TracedFrom.onMachine {begins : Machine → Prop} {action : Exec α}
    (inner : TracedFrom setup start fuel begins action) :
    TracedIn setup start fuel (fun state => begins state.machine) (Step.onMachine action) := by
  intro live state regular holds
  rw [Step.detached_onMachine]
  exact (inner live state.machine regular holds).followed (fun _ _ _ => .pure _) fun _ _ _ => .pure _

theorem TracedIn.weaken (traced : TracedIn setup start fuel begins step)
    {earlier : StepState → Prop} (before : ∀ state, earlier state → begins state) :
    TracedIn setup start fuel earlier step :=
  fun live state regular holds => traced live state regular (before state holds)

variable (governs : (sound setup start).Governs setup)

include governs

theorem TracedIn.bind (first : TracedIn setup start fuel begins step)
    (leads : (sound setup start).Leads setup begins step ends)
    (rest : ∀ value, TracedIn setup start fuel (ends value) (next value)) :
    TracedIn setup start fuel begins (step >>= next) := by
  rintro live ⟨machine, frame, cursor⟩ regular holds
  obtain ⟨within, given⟩ := governs.ends_leads leads fuel regular holds
  have regularAfter := regular.after within
  rw [Step.detached_bind]
  refine (first live ⟨machine, frame, cursor⟩ regular holds).bind fun reached after ended => ?_
  rw [Step.detached] at ended
  cases stepped : step (setup.services fuel) ⟨machine, frame, cursor⟩ with
  | ok value reachedState =>
    rw [stepped] at ended regularAfter
    cases ended
    exact rest value live reachedState regularAfter (given value reachedState stepped)
  | error interruption reachedState =>
    rw [stepped] at ended
    cases ended
    exact .pure _

end StepParts

/-! ## Careful actions -/

/-- An action that keeps machines sound and of which it can be told what it enters. -/
structure Careful (setup : Setup) (start : Heap) (fuel : Nat) (gives : α → Prop) (action : Exec α) :
    Prop where
  follows : (sound setup start).Follows setup gives action
  traced : TracedFrom setup start fuel (fun _ => True) action

/-- A part of an instruction in the code of a class that keeps machines sound and of which it can be
told what it enters. -/
structure CarefulIn (setup : Setup) (start : Heap) (fuel : Nat) (owner : LinkedClass)
    (gives : α → Prop) (step : Step α) : Prop where
  within : (sound setup start).Within setup (InCode owner) gives step
  traced : TracedIn setup start fuel (InCode owner) step

section Careful

variable {gives : α → Prop} {wanted : β → Prop} {action : Exec α} {next : α → Exec β}
  {step : Step α} {nextStep : α → Step β}

theorem careful_of_callFree (follows : (sound setup start).Follows setup gives action)
    (callFree : CallFree setup action) (charted : Charted setup 0 action) :
    Careful setup start fuel gives action :=
  ⟨follows, tracedFrom_of_callFree callFree charted⟩

theorem carefulIn_of_callFree (within : (sound setup start).Within setup (InCode owner) gives step)
    (callFree : CallFree setup step)
    (charted : ∀ frame cursor, Charted setup 0 (step.detached frame cursor)) :
    CarefulIn setup start fuel owner gives step :=
  ⟨within, tracedIn_of_callFree callFree charted⟩

variable (governs : (sound setup start).Governs setup)

include governs

theorem Careful.traced_bind (first : Careful setup start fuel gives action)
    (rest : ∀ value, gives value → TracedFrom setup start fuel (fun _ => True) (next value)) :
    TracedFrom setup start fuel (fun _ => True) (action >>= next) :=
  first.traced.bind governs first.follows.leads fun value live machine regular given =>
    rest value given live machine regular trivial

/-- Something lasting is not lost meanwhile. -/
theorem Careful.traced_bindLasting {lasting : Machine → Prop}
    (first : Careful setup start fuel gives action) (lasts : (sound setup start).Lasts lasting)
    (rest : ∀ value, gives value → TracedFrom setup start fuel lasting (next value)) :
    TracedFrom setup start fuel lasting (action >>= next) := by
  have leads : (sound setup start).Leads setup lasting action
      fun value machine => gives value ∧ lasting machine :=
    (Leads.lasts first.follows.leads lasts).weaken (fun _ holds => ⟨trivial, holds⟩) fun _ _ => id
  exact (first.traced.weaken fun _ _ => trivial).bind governs leads fun value =>
    tracedFrom_of_fact (rest value)

theorem Careful.bind (first : Careful setup start fuel gives action)
    (rest : ∀ value, gives value → Careful setup start fuel wanted (next value)) :
    Careful setup start fuel wanted (action >>= next) :=
  ⟨first.follows.bind fun value given => (rest value given).follows,
    first.traced_bind governs fun value given => (rest value given).traced⟩

/-- Whatever interrupts an action, it may be handled by careful actions. -/
theorem Careful.tryCatch {handle : Interruption → Exec α}
    (first : Careful setup start fuel gives action)
    (rest : ∀ interruption, Careful setup start fuel gives (handle interruption)) :
    Careful setup start fuel gives (MonadExcept.tryCatch action handle) where
  follows := first.follows.tryCatch fun interruption => (rest interruption).follows
  traced live machine regular _ := by
    have regularAfter := regular.after (governs.ends_follows first.follows fuel regular)
    refine (first.traced live machine regular trivial).tryCatch fun interruption after ended => ?_
    rw [ended] at regularAfter
    exact (rest interruption).traced live after regularAfter trivial

theorem CarefulIn.traced_bind (first : CarefulIn setup start fuel owner gives step)
    (rest : ∀ value, gives value → TracedIn setup start fuel (InCode owner) (nextStep value)) :
    TracedIn setup start fuel (InCode owner) (step >>= nextStep) :=
  first.traced.bind governs first.within fun value live state regular given =>
    rest value given.1 live state regular given.2

theorem CarefulIn.bind (first : CarefulIn setup start fuel owner gives step)
    (rest : ∀ value, gives value → CarefulIn setup start fuel owner wanted (nextStep value)) :
    CarefulIn setup start fuel owner wanted (step >>= nextStep) :=
  ⟨first.within.bind fun value given => (rest value given).within,
    first.traced_bind governs fun value given => (rest value given).traced⟩

end Careful

/-! ## Calls and initializations -/

/-- It can be told what a call enters: the method, if it is executed at all, and then what that
enters, with fresh initializers. -/
def CallTraced (setup : Setup) (fuel : Nat) (owner : LinkedClass) (index : Nat)
    (arguments : List Value) (machine : Machine) : Prop :=
  ∃ own later, Enters setup fuel (invoke owner index arguments) machine (own ++ later) ∧
    own.length ≤ 1 ∧
    (∀ entry ∈ own, entry.owner = owner ∧ owner.method? index = some entry.method) ∧
    Fresh machine.phases
      (endState (invoke owner index arguments (setup.services fuel) machine)).phases later

/-- It can be told of all calls, wherever they may be made. -/
def CallsTraced (setup : Setup) (start : Heap) (fuel : Nat) : Prop :=
  ∀ owner index arguments live machine, (Knowledge.provided setup.sources).Method owner index →
    (sound setup start).Regular setup live machine →
      CallTraced setup fuel owner index arguments machine

section Calls

variable (calls : CallsTraced setup start fuel)

include calls

/-- A method that is no initializer makes no difference to the initializers that it enters. -/
theorem tracedFrom_invoke {index : Nat}
    (callable : (Knowledge.sealed setup.sources).Method owner index) (arguments : List Value) :
    TracedFrom setup start fuel (fun _ => True) (invoke owner index arguments) := by
  intro live machine regular _
  obtain ⟨own, later, enters, single, isOwn, fresh⟩ := calls owner index arguments live machine
    (Knowledge.provided_of_sealed callable) regular
  refine ⟨own ++ later, enters, ?_⟩
  cases own with
  | nil => exact fresh
  | cons entry rest =>
    obtain rfl : rest = [] := List.eq_nil_of_length_eq_zero (Nat.le_zero.mp (Nat.le_of_succ_le_succ single))
    obtain ⟨-, method, present, plain⟩ := callable
    have same := (isOwn entry List.mem_cons_self).2
    cases present.symm.trans same
    exact fresh.cons plain

theorem careful_invoke {index : Nat} (callable : (Knowledge.sealed setup.sources).Method owner index)
    (arguments : List Value) :
    Careful setup start fuel anything (invoke owner index arguments) where
  follows := follows_invoke (Knowledge.provided_of_sealed callable) arguments
  traced := tracedFrom_invoke calls callable arguments

variable {live : List Activation} {machine : Machine}

/-- The part of an initialization about the class itself enters the initializer of the class, if it
has one, and what that enters. -/
theorem exists_entries_self (governs : (sound setup start).Governs setup)
    (grounded : setup.Grounded) (defined : Defines setup.sources c)
    (regular : (sound setup start).Regular setup live machine) :
    ∃ own later, Enters setup fuel (initializeSelf c) machine (own ++ later) ∧ own.length ≤ 1 ∧
      (∀ name ∈ Entry.initialized own, name = c.name) ∧
      Fresh machine.phases (endState (initializeSelf c (setup.services fuel) machine)).phases
        later := by
  have assigned : Enters setup fuel (assignConstants c c.staticFields) machine [] :=
    .of_callFree (callFree_assignConstants _ _)
  have touched : Fresh machine.phases
      (endState (assignConstants c c.staticFields (setup.services fuel) machine)).phases [] :=
    .of_callFree (callFree_assignConstants _ _) (charted_zero.exec_assignConstants c _)
  have within := governs.ends_follows (sound_assignConstants grounded defined) fuel regular
  cases ended : assignConstants c c.staticFields (setup.services fuel) machine with
  | error interruption after =>
    rw [ended] at touched
    refine ⟨[], [], assigned.bind_of_error ended, Nat.zero_le _, nofun, ?_⟩
    rw [initializeSelf, Operation.bind_of_error ended]
    exact touched
  | ok _ ready =>
    rw [ended] at touched within
    have readyRegular := regular.after within
    rw [initializeSelf, Operation.bind_of_ok ended]
    suffices runs : ∃ own later, Enters setup fuel (runInitializer c) ready (own ++ later) ∧
        own.length ≤ 1 ∧ (∀ name ∈ Entry.initialized own, name = c.name) ∧
        Fresh ready.phases (endState (runInitializer c (setup.services fuel) ready)).phases later by
      obtain ⟨own, later, enters, single, isOwn, fresh⟩ := runs
      exact ⟨own, later, assigned.bind_of_ok ended enters, single, isOwn, touched.append fresh⟩
    cases declared : c.declaredMethod? MemberName.staticInitializer "()V" with
    | none =>
      have none : runInitializer c = pure () := by rw [runInitializer, declared]
      rw [none]
      exact ⟨[], [], .of_callFree (callFree_pure _), Nat.zero_le _, nofun, .nil fun _ => id⟩
    | some index =>
      have called : runInitializer c = invoke c index [] >>= fun _ => pure () := by
        rw [runInitializer, declared]
      rw [called]
      obtain ⟨method, present, -⟩ := LinkedClass.exists_of_declaredMethod? declared
      have callable := (Knowledge.provided setup.sources).declared defined present trivial
      obtain ⟨own, later, enters, single, isOwn, fresh⟩ := calls c index [] live ready callable
        readyRegular
      refine ⟨own, later, ?_, single, fun name member => ?_, ?_⟩
      · rw [bind_eq_followed]
        exact enters.followed_callFree (fun _ => callFree_pure _) callFree_throw
      · obtain ⟨entry, among, rfl⟩ := Entry.exists_of_mem_initialized member
        rw [(isOwn entry among).1]
      · rw [endState_bind_pure]
        exact fresh

/-- An initialization enters what that of the superclass does, then the initializer of the class, if
it has one, and what that enters. -/
theorem exists_entries_initialization (governs : (sound setup start).Governs setup)
    (grounded : setup.Grounded) (defined : Defines setup.sources c)
    (above : Careful setup start fuel anything (ensureInitialized.ofSuperclass c.superclass))
    (regular : (sound setup start).Regular setup live machine) :
    ∃ first own later, Enters setup fuel
        (do ensureInitialized.ofSuperclass c.superclass; initializeSelf c) machine
        (first ++ (own ++ later)) ∧
      own.length ≤ 1 ∧ (∀ name ∈ Entry.initialized own, name = c.name) ∧
      Fresh machine.phases (endState ((do
        ensureInitialized.ofSuperclass c.superclass
        initializeSelf c : Exec Unit) (setup.services fuel) machine)).phases (first ++ later) := by
  obtain ⟨first, enters, fresh⟩ := above.traced live machine regular trivial
  have within := governs.ends_follows above.follows fuel regular
  cases ended : ensureInitialized.ofSuperclass c.superclass (setup.services fuel) machine with
  | error interruption after =>
    rw [ended] at fresh
    refine ⟨first, [], [], ?_, Nat.zero_le _, nofun, ?_⟩
    · rw [List.append_nil, List.append_nil]
      exact enters.bind_of_error ended
    · rw [Operation.bind_of_error ended, List.append_nil]
      exact fresh
  | ok _ ready =>
    rw [ended] at fresh within
    obtain ⟨own, later, entersSelf, single, isOwn, freshSelf⟩ :=
      exists_entries_self calls governs grounded defined (regular.after within)
    refine ⟨first, own, later, enters.bind_of_ok ended entersSelf, single, isOwn, ?_⟩
    rw [Operation.bind_of_ok ended]
    exact fresh.append freshSelf

/-- **An initialization is careful**: the initializer that it enters is that of an untouched class. -/
theorem careful_ensureInitialized (governs : (sound setup start).Governs setup)
    (grounded : setup.Grounded) (defined : Defines setup.sources c)
    (above : Careful setup start fuel anything (ensureInitialized.ofSuperclass c.superclass)) :
    Careful setup start fuel anything (ensureInitialized c) where
  follows := (sound_informed grounded start grounded.strings).exec_initializing defined above.follows
  traced live machine regular _ := by
    have settledAlready {result : EStateM.Result Interruption Machine Unit}
        (atOnce : ∀ services, ensureInitialized c services machine = result)
        (kept : endState result = machine) : Traced setup fuel (ensureInitialized c) machine := by
      refine ⟨[], .callFree fun invoke => by rw [atOnce, atOnce], ?_⟩
      rw [atOnce, kept]
      exact .nil fun _ => id
    cases phase : machine.phases c.name with
    | done => exact settledAlready (fun _ => ensureInitialized_of_begun (.inl phase)) rfl
    | running => exact settledAlready (fun _ => ensureInitialized_of_begun (.inr phase)) rfl
    | failed => exact settledAlready (fun _ => ensureInitialized_of_failed phase) rfl
    | untouched =>
      have running : (sound setup start).Regular setup live (withPhase c .running machine) :=
        regular.after (governs.ends_follows (sound_setPhase defined .running) fuel regular)
      obtain ⟨first, own, later, enters, single, isOwn, fresh⟩ :=
        exists_entries_initialization calls governs grounded defined above running
      refine ⟨first ++ (own ++ later), ?_, ?_⟩
      · rw [ensureInitialized_eq]
        exact .initializing phase enters
      · rw [ensureInitialized_of_untouched phase, phases_concluded]
        rw [phases_withPhase] at fresh
        refine fresh.within phase isOwn single ?_
        rcases outcome_eq _ with ended | ended <;> rw [ended] <;> exact nofun

end Calls

/-! ## Instructions -/

section Instructions

variable (governs : (sound setup start).Governs setup) (grounded : setup.Grounded)
  (unnamed : InitializersUnnamed setup.sources) (calls : CallsTraced setup start fuel)

include governs grounded calls

/-- **The simplest actions are careful**, in the code of any class. -/
theorem careful_informed (defined : Defines setup.sources owner) :
    Informed (.sealed setup.sources) (.sealed unnamed defined)
      (fun gives action => Careful setup start fuel gives action)
      (fun gives step => CarefulIn setup start fuel owner gives step) where
  exec_pure given := careful_of_callFree (follows_pure given) (callFree_pure _) (charted_pure _)
  exec_bind first rest := first.bind governs rest
  exec_throw interruption :=
    careful_of_callFree (follows_throw _) (callFree_throw interruption) (charted_throw _)
  exec_get := careful_of_callFree follows_get callFree_get charted_get
  exec_load name := careful_of_callFree (sound_load name) (fun _ _ _ => rfl) charted_load
  exec_object ref :=
    careful_of_callFree (sound_object ref) (fun _ _ _ => rfl) (charted_zero.exec_object ref)
  exec_invoke callable arguments := careful_invoke calls callable arguments
  exec_setStatic field _ holds :=
    careful_of_callFree ((sound_informed grounded start defined).exec_setStatic field holds)
      (callFree_setStatic _ _ _) charted_setStatic
  exec_assignConstants isKnown :=
    careful_of_callFree (sound_assignConstants grounded isKnown) (callFree_assignConstants _ _)
      (charted_zero.exec_assignConstants _ _)
  exec_instantiate isKnown :=
    careful_of_callFree (sound_instantiate isKnown) (fun _ _ _ => rfl) charted_allocate
  exec_allocateZeros isKnown length :=
    careful_of_callFree (sound_allocateZeros isKnown length) (callFree_allocateZeros _ length)
      (charted_zero.exec_allocateZeros _ length)
  exec_putField ref slot value :=
    careful_of_callFree (sound_putField ref slot value) (callFree_putField ref slot value)
      (charted_zero.exec_putField ref slot value)
  exec_newString text :=
    careful_of_callFree (sound_newString grounded text) (callFree_newString text) charted_newString
  exec_intern text :=
    careful_of_callFree (sound_intern grounded text) (callFree_intern text) charted_intern
  exec_print toErrors text :=
    careful_of_callFree (sound_print toErrors text) (fun _ _ _ => rfl)
      (charted_zero.exec_print toErrors text)
  exec_readClock :=
    careful_of_callFree sound_readClock (fun _ _ _ => rfl) charted_zero.exec_readClock
  exec_initializing isKnown above := careful_ensureInitialized calls governs grounded isKnown above
  step_pure given := carefulIn_of_callFree (within_pure given) (callFree_pure _) fun _ _ => charted_pure _
  step_bind first rest := first.bind governs rest
  step_throw interruption :=
    carefulIn_of_callFree ((sound_informed grounded start defined).step_throw interruption)
      (callFree_throw interruption) (charted_zero.step_throw interruption)
  step_onMachine inner :=
    ⟨(sound_informed grounded start defined).step_onMachine inner.follows,
      inner.traced.onMachine.weaken fun _ _ => trivial⟩
  step_onFrame operation :=
    carefulIn_of_callFree ((sound_informed grounded start defined).step_onFrame operation)
      (fun _ _ _ => rfl) (charted_zero.step_onFrame operation)
  step_frame :=
    carefulIn_of_callFree (sound_informed grounded start defined).step_frame (fun _ _ _ => rfl)
      charted_zero.step_frame
  step_cursor :=
    carefulIn_of_callFree (sound_informed grounded start defined).step_cursor (fun _ _ _ => rfl)
      charted_zero.step_cursor
  step_seek cursor :=
    carefulIn_of_callFree ((sound_informed grounded start defined).step_seek cursor)
      (fun _ _ _ => rfl) (charted_zero.step_seek cursor)
  step_arrayLimit :=
    carefulIn_of_callFree (sound_informed grounded start defined).step_arrayLimit (fun _ _ _ => rfl)
      charted_zero.step_arrayLimit
  step_constantAt index :=
    carefulIn_of_callFree ((sound_informed grounded start defined).step_constantAt index)
      (Step.callFree_constantAt index) (charted_zero.step_constantAt index)
  step_classNamed constant names :=
    carefulIn_of_callFree ((sound_informed grounded start defined).step_classNamed constant names)
      (Step.callFree_classNamed _ _) (charted_zero.step_classNamed _ _)
  step_linked constant names finds :=
    carefulIn_of_callFree ((sound_informed grounded start defined).step_linked constant names finds)
      (Step.callFree_linked _ _ _) (charted_zero.step_linked _ _ _)

include unnamed

/-- An element is stored once it has been checked. -/
theorem carefulIn_storeElement (defined : Defines setup.sources owner) (op : Opcode)
    (kind : ElementKind) :
    CarefulIn setup start fuel owner anything (Step.storeElement op kind) where
  within := sound_storeElement grounded defined op kind
  traced := by
    have informed := careful_informed governs grounded unnamed calls defined
    refine (informed.step_onFrame _).traced_bind governs fun value _ => ?_
    refine (informed.step_onFrame _).traced_bind governs fun index _ => ?_
    refine informed.step_popObject.traced_bind governs fun ref _ => ?_
    refine (informed.step_object ref).traced_bind governs fun object _ => ?_
    refine (informed.step_componentOf op kind object).traced_bind governs fun component _ => ?_
    refine (informed.step_checkKind op component value).traced_bind governs fun _ _ => ?_
    refine (informed.step_checkElement object value).traced_bind governs fun _ _ => ?_
    split
    · exact tracedIn_of_callFree (fun _ _ _ => rfl)
        (charted_zero.step_onMachine (charted_zero.exec_setSlot _ _ _))
    · have stops : CarefulIn setup start fuel owner anything
          (Step.indexOutOfBounds object index : Step Unit) := informed.step_indexOutOfBounds _ _
      exact stops.traced

theorem carefulIn_repeated (defined : Defines setup.sources owner) {action : Step Ref}
    (each : CarefulIn setup start fuel owner anything action) (count : Nat) (made : Array Value) :
    CarefulIn setup start fuel owner anything (Step.repeated action count made) := by
  induction count generalizing made with
  | zero => exact (careful_informed governs grounded unnamed calls defined).step_pure trivial
  | succ count ih => exact each.bind governs fun _ _ => ih _

/-- An array of arrays is made after its elements. -/
theorem carefulIn_allocateNested (ownerDefined : Defines setup.sources owner)
    (defined : Defines setup.sources c) (length : Nat) (inner : List Nat) :
    CarefulIn setup start fuel owner anything (Step.allocateNested c length inner) where
  within := (leads_allocateNested grounded ownerDefined defined length inner).weaken (fun _ => id)
    fun _ _ ended => ⟨trivial, ended.1⟩
  traced := by
    have informed := careful_informed governs grounded unnamed calls ownerDefined
    induction inner generalizing c length with
    | nil => exact (informed.step_allocateArray defined length).traced
    | cons first rest ih =>
      rw [Step.allocateNested]
      split
      · next element contained =>
        have elementDefined := defined.linksTo_defined (.element contained)
        have each : CarefulIn setup start fuel owner anything
            (Step.allocateNested element first rest) :=
          ⟨(leads_allocateNested grounded ownerDefined elementDefined first rest).weaken (fun _ => id)
            fun _ _ ended => ⟨trivial, ended.1⟩, ih elementDefined first⟩
        have made : TracedIn setup start fuel (InCode owner) (do
            let elements ← Step.repeated (Step.allocateNested element first rest) length #[]
            Exec.allocateElements c elements : Step Ref) :=
          (carefulIn_repeated governs grounded unnamed calls ownerDefined each length #[]).traced_bind
            governs fun elements _ =>
              tracedIn_of_callFree (Step.callFree_onMachine (callFree_allocateElements c elements))
                (charted_zero.step_onMachine (charted_zero.exec_allocateElements c elements))
        dsimp only
        split
        · have stops : CarefulIn setup start fuel owner (fun _ => False)
              (Step.fault (.tooManyDimensions c.name) : Step PUnit) := informed.step_fault _
          exact stops.traced_bind governs fun _ => False.elim
        · exact made
      · have stops : CarefulIn setup start fuel owner anything
            (Step.fault (.tooManyDimensions c.name) : Step Ref) := informed.step_fault _
        exact stops.traced

/-- **Every instruction is careful**, and calls no initializer. -/
theorem carefulIn_instruction (defined : Defines setup.sources owner) :
    CarefulIn setup start fuel owner (Knowledge.sealed setup.sources).Next Step.instruction :=
  (careful_informed governs grounded unnamed calls defined).step_instruction
    (carefulIn_storeElement governs grounded unnamed calls defined) fun _ isKnown =>
      carefulIn_allocateNested governs grounded unnamed calls defined isKnown

/-! ## Native methods -/

/-- Elements are stored one by one, each once it has been checked. -/
theorem tracedFrom_storeAll {ref : Ref} {object : HeapObject} {component : FieldType}
    {slots : Array Value} (typed : object.Typed setup.sources)
    (array : object.array? = some (component, slots)) (position : Nat) (values : List Value)
    (holds : ∀ value ∈ values, component.Holds value) :
    TracedFrom setup start fuel (fun machine => machine.heap.Shows ref object)
      (Native.SystemMethods.storeAll ref object.type position values) := by
  have informed := careful_informed governs grounded unnamed calls grounded.strings
  have seen := lasts_shows setup start ref object
  induction values generalizing position with
  | nil => exact tracedFrom_of_callFree (callFree_pure _) (charted_pure _)
  | cons value rest ih =>
    have checks := (leads_checkAssignable grounded typed.provided value).lasts seen
    have stores := (leads_store start typed array ref position
      (holds value List.mem_cons_self)).lasts seen
    refine TracedFrom.bind governs
      ((informed.system_checkAssignable object.type value).traced.weaken fun _ _ => trivial)
      (checks.weaken (fun _ shows => ⟨trivial, shows⟩) fun _ _ => id) fun _ => ?_
    refine TracedFrom.bind governs
      (tracedFrom_of_callFree (fun _ _ _ => rfl) (charted_zero.exec_setSlot _ _ _))
      (stores.weaken (fun _ found => ⟨⟨found.2, found.1.2⟩, found.2⟩) fun _ _ => id) fun _ => ?_
    exact (ih (position + 1) fun other member => holds other (List.mem_cons_of_mem _ member)).weaken
      fun _ => And.right

theorem careful_copyElements (source target : Ref) (sourceStart targetStart count : Int) :
    Careful setup start fuel anything
      (Native.SystemMethods.copyElements source target sourceStart targetStart count) where
  follows := sound_copyElements grounded source target sourceStart targetStart count
  traced := by
    have informed := careful_informed governs grounded unnamed calls grounded.strings
    refine (informed.exec_object source).traced.bind governs (leads_object source) fun sourceObject => ?_
    refine tracedFrom_of_fact fun sourceTyped => ?_
    refine TracedFrom.bind governs ((informed.exec_object target).traced.weaken fun _ _ => trivial)
      ((leads_object target).weaken (fun _ _ => trivial) fun _ _ => id) fun object => ?_
    refine tracedFrom_of_fact fun typed => ?_
    suffices copies : TracedFrom setup start fuel
        (fun machine => machine.heap.Shows target object) _ from
      copies.weaken fun _ found => found ▸ Heap.shows_get _ _
    have seen := lasts_shows setup start target object
    have throws (className : String) (detail : Option String) :
        Careful setup start fuel anything (Exec.throwNew className detail : Exec Unit) :=
      informed.exec_throwNew className detail
    split
    · exact (throws _ _).traced.weaken fun _ _ => trivial
    · exact (throws _ _).traced.weaken fun _ _ => trivial
    · next sourceType elements targetType replaced sourceArray array =>
      refine (informed.system_checkComponents sourceType targetType).traced_bindLasting governs seen
        fun _ components => ?_
      refine (informed.system_checkRange _ _ _ _ _).traced_bindLasting governs seen fun _ _ => ?_
      refine tracedFrom_storeAll governs grounded unnamed calls typed array _ _ fun value member => ?_
      rw [Array.toList_extract] at member
      have element := Array.mem_toList_iff.mp (List.mem_of_mem_drop (List.mem_of_mem_take member))
      have held := sourceTyped.elements sourceType elements sourceArray value element
      rcases components with ⟨sourceReference, targetReference⟩ | rfl
      · exact held.reference sourceReference targetReference
      · exact held

/-- **The built-in native methods are careful** when they are called under their keys. -/
theorem careful_natives :
    Serving (Knowledge.provided setup.sources).Calls
      (fun _ action => Careful setup start fuel anything action) Native.table := by
  have informed := careful_informed governs grounded unnamed calls grounded.strings
  refine informed.native_table (careful_copyElements governs grounded unnamed calls)
    fun call called name standard stream => ?_
  refine careful_of_callFree (sound_assignStream grounded called.owner
    (congrArg NativeKey.className called.key).symm standard stream) ?_ ?_
  · unfold Native.SystemMethods.assignStream
    split
    · exact callFree_throw _
    · exact callFree_setStatic _ _ _
  · unfold Native.SystemMethods.assignStream
    split
    · exact charted_throw _
    · exact charted_setStatic

end Instructions

end Regime

end JavaMachine
