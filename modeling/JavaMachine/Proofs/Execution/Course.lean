import JavaMachine.Machine.Execution
import JavaMachine.Proofs.Machine.Phases

/-! # The course of initialization

What an action does to the initialization of classes is told by a list of events. The relation
`Course` follows the action as it is put together and gives its events in order: an action that
neither makes calls nor touches a phase has none, two actions one after the other have those of the
first and of the second, a call has those of the method that it runs, and the initialization of an
untouched class has those of its superclass and its own between the two that mark its beginning and
its end. On a course every class takes at most the two steps from untouched to running and from
there to its end, and the superclass of a class that starts is never untouched or failed. -/

namespace JavaMachine

/-- What happens to the initialization of a class. -/
inductive InitEvent where
  /-- The initializer of a class is entered; the class is running. -/
  | entered (c : LinkedClass)
  /-- The part of a class's initializer starts that is about the class itself, inside some other
  initializers and in some phases of all classes. -/
  | started (c : LinkedClass) (enclosing : List String) (phases : Phases)
  /-- The initializer of a class ends, which leaves the class in a phase. -/
  | ended (c : LinkedClass) (phase : InitPhase)

namespace InitEvent

/-- The phase that a class with a name takes in an event. -/
def phaseOf? (name : String) : InitEvent → Option InitPhase
  | entered c => if c.name = name then some .running else none
  | started .. => none
  | ended c phase => if c.name = name then some phase else none

/-- The name of the class whose initializer is entered in an event. -/
def entered? : InitEvent → Option String
  | entered c => some c.name
  | started .. | ended .. => none

/-- The phases that a class with a name takes in some events, in this order. -/
def taken (name : String) (events : List InitEvent) : List InitPhase :=
  events.filterMap (phaseOf? name)

/-- The names of the classes whose initializers are entered in some events, in this order. -/
def entries (events : List InitEvent) : List String :=
  events.filterMap entered?

section Taken

variable {name : String} {c : LinkedClass} {phase : InitPhase} {enclosing : List String}
  {phases : Phases} {first second events : List InitEvent}

theorem taken_append : taken name (first ++ second) = taken name first ++ taken name second :=
  List.filterMap_append

theorem taken_entered : taken name (.entered c :: events) =
    (if c.name = name then [.running] else []) ++ taken name events := by
  by_cases same : c.name = name <;> simp [taken, phaseOf?, same]

theorem taken_started :
    taken name (.started c enclosing phases :: events) = taken name events :=
  rfl

theorem taken_ended :
    taken name [.ended c phase] = if c.name = name then [phase] else [] := by
  by_cases same : c.name = name <;> simp [taken, phaseOf?, same]

/-- A class takes the phase of a running class as often as it is entered. -/
theorem count_entries_le : (entries events).count name ≤ (taken name events).count .running := by
  induction events with
  | nil => exact Nat.le_refl 0
  | cons event rest ih =>
    cases event with
    | entered c =>
      change (c.name :: entries rest).count name ≤ _
      rw [taken_entered, List.count_append, List.count_cons]
      by_cases same : c.name = name
      · simp only [same, beq_self_eq_true, if_true, List.count_singleton_self]
        omega
      · simp only [same, beq_iff_eq, if_false, List.count_nil]
        omega
    | started => exact ih
    | ended c phase =>
      change (entries rest).count name ≤ (taken name ([.ended c phase] ++ rest)).count .running
      rw [taken_append, List.count_append]
      omega

/-- The initializer of each class is entered at most once, if each class takes no step or those of
one initialization. -/
theorem nodup_entries {before after : Phases}
    (steps : ∀ name, Steps (before name) (taken name events) (after name)) :
    (entries events).Nodup := by
  rw [List.nodup_iff_count_le_one]
  exact fun name => Nat.le_trans count_entries_le (steps name).count_running_le

end Taken

end InitEvent

/-! ## Actions one after the other -/

namespace Exec

variable {α β : Type}

/-- What follows an action that has ended so. -/
def sequel (next : α → Exec β) (handle : Interruption → Exec β) :
    EStateM.Result Interruption Machine α → Exec β
  | .ok value _ => next value
  | .error interruption _ => handle interruption

/-- An action and what follows it, whether it ends with a value or is interrupted. -/
def followed (action : Exec α) (next : α → Exec β) (handle : Interruption → Exec β) : Exec β :=
  fun services machine =>
    let result := action services machine
    sequel next handle result services (endState result)

theorem bind_eq_followed (action : Exec α) (next : α → Exec β) :
    action >>= next = followed action next throw := by
  funext services machine
  simp only [Bind.bind, ReaderT.bind, EStateM.bind, followed]
  cases action services machine with
  | ok value after => rfl
  | error interruption after => rfl

theorem tryCatch_eq_followed (action : Exec α) (handle : Interruption → Exec α) :
    tryCatch action handle = followed action pure handle := by
  funext services machine
  simp only [tryCatch, tryCatchThe, MonadExceptOf.tryCatch, EStateM.tryCatch, followed]
  cases action services machine with
  | ok value after => rfl
  | error interruption after => rfl

/-- From a machine, an action ends in the same way whatever calls would do, and leaves the phases of
all classes alone. -/
structure Quiet (setup : Setup) (action : Exec α) (machine : Machine) : Prop where
  callFree (invoke invoke' : Invoker) :
    action (setup.withInvoker invoke) machine = action (setup.withInvoker invoke') machine
  phases (invoke : Invoker) :
    (endState (action (setup.withInvoker invoke) machine)).phases = machine.phases

end Exec

theorem Setup.services_eq_withInvoker (setup : Setup) (fuel : Nat) :
    ∃ invoke, setup.services fuel = setup.withInvoker invoke := by
  cases fuel with
  | zero => exact ⟨_, rfl⟩
  | succ fuel => exact ⟨_, rfl⟩

/-! ## Courses -/

open Exec InitEvent

/-- The events of an action that is performed from a machine, inside the initializers of some
classes. -/
inductive Course (setup : Setup) :
    (fuel : Nat) → (enclosing : List String) → {α : Type} → Exec α → Machine →
      List InitEvent → Prop where
  | quiet {fuel : Nat} {enclosing : List String} {α : Type} {action : Exec α} {machine : Machine}
      (quiet : Quiet setup action machine) : Course setup fuel enclosing action machine []
  | followed {fuel : Nat} {enclosing : List String} {α β : Type} {action : Exec α}
      {next : α → Exec β} {handle : Interruption → Exec β} {machine : Machine}
      {events later : List InitEvent} (first : Course setup fuel enclosing action machine events)
      (rest : Course setup fuel enclosing
        (sequel next handle (action (setup.services fuel) machine))
        (endState (action (setup.services fuel) machine)) later) :
      Course setup fuel enclosing (followed action next handle) machine (events ++ later)
  | exhausted {enclosing : List String} {owner : LinkedClass} {index : Nat}
      {arguments : List Value} {machine : Machine} :
      Course setup 0 enclosing (invoke owner index arguments) machine []
  | called {fuel : Nat} {enclosing : List String} {owner : LinkedClass} {index : Nat}
      {arguments : List Value} {machine : Machine} {events : List InitEvent}
      (inside : Course setup fuel enclosing
        (Execution.invoke setup.natives (Execution.run fuel) owner index arguments) machine
        events) :
      Course setup (fuel + 1) enclosing (invoke owner index arguments) machine events
  /-- An initializer is entered, goes on when the superclass is initialized, and ends as what
  follows ends. -/
  | initialized {fuel : Nat} {enclosing : List String} {c : LinkedClass} {machine ready : Machine}
      {above within : List InitEvent} (untouched : machine.phases c.name = .untouched)
      (superclass : Course setup fuel (c.name :: enclosing)
        (ensureInitialized.ofSuperclass c.superclass) (withPhase c .running machine) above)
      (reached : ensureInitialized.ofSuperclass c.superclass (setup.services fuel)
        (withPhase c .running machine) = .ok () ready)
      (initializer : Course setup fuel (c.name :: enclosing) (initializeSelf c) ready within)
      (exact : ensureInitialized c (setup.services fuel) machine =
        concluded c (initializeSelf c (setup.services fuel) ready)) :
      Course setup fuel enclosing (ensureInitialized c) machine
        (.entered c :: (above ++ .started c enclosing ready.phases :: (within ++
          [.ended c (outcome (initializeSelf c (setup.services fuel) ready))])))
  /-- An initializer is entered and does not go on, since the superclass cannot be initialized. -/
  | refused {fuel : Nat} {enclosing : List String} {c : LinkedClass} {machine after : Machine}
      {interruption : Interruption} {above : List InitEvent}
      (untouched : machine.phases c.name = .untouched)
      (superclass : Course setup fuel (c.name :: enclosing)
        (ensureInitialized.ofSuperclass c.superclass) (withPhase c .running machine) above)
      (stopped : ensureInitialized.ofSuperclass c.superclass (setup.services fuel)
        (withPhase c .running machine) = .error interruption after)
      (exact : ensureInitialized c (setup.services fuel) machine =
        .error interruption (withPhase c .failed after)) :
      Course setup fuel enclosing (ensureInitialized c) machine
        (.entered c :: (above ++ [.ended c .failed]))

namespace Course

variable {setup : Setup} {fuel : Nat} {enclosing : List String} {α : Type} {action : Exec α}
  {machine : Machine} {events : List InitEvent}

theorem phases_of_quiet (quiet : Quiet setup action machine) :
    (endState (action (setup.services fuel) machine)).phases = machine.phases := by
  obtain ⟨invoke, services⟩ := setup.services_eq_withInvoker fuel
  rw [services]
  exact quiet.phases invoke

variable {name : String}

/-- **Along a course a class takes no step at all, or the two from untouched to running and from
there to the phase that its initializer ends in.** -/
theorem steps (course : Course setup fuel enclosing action machine events) :
    Steps (machine.phases name) (taken name events)
      ((endState (action (setup.services fuel) machine)).phases name) := by
  induction course with
  | quiet quiet =>
    rw [phases_of_quiet quiet]
    exact .none
  | followed first rest ihFirst ihRest =>
    rw [taken_append]
    exact ihFirst.append ihRest
  | exhausted => exact .none
  | called inside ih => exact ih
  | @initialized _ _ c machine _ _ _ untouched _ reached _ exact ihSuperclass ihInitializer =>
    rw [reached, phases_withPhase] at ihSuperclass
    rw [exact, phases_concluded, taken_entered, taken_append, taken_started, taken_append,
      taken_ended]
    by_cases same : c.name = name
    · subst same
      rw [Function.update_self] at ihSuperclass ⊢
      obtain ⟨noneAbove, running⟩ := ihSuperclass.of_running
      rw [endState] at running
      rw [running] at ihInitializer
      rw [noneAbove, ihInitializer.of_running.1, if_pos rfl, if_pos rfl, untouched]
      exact .both (outcome_eq _)
    · rw [Function.update_of_ne (Ne.symm same)] at ihSuperclass ⊢
      rw [if_neg same, if_neg same, List.nil_append, List.append_nil]
      exact ihSuperclass.append ihInitializer
  | @refused _ _ c machine _ _ _ untouched _ stopped exact ihSuperclass =>
    rw [stopped, phases_withPhase] at ihSuperclass
    rw [exact, endState, phases_withPhase, taken_entered, taken_append, taken_ended]
    by_cases same : c.name = name
    · subst same
      rw [Function.update_self] at ihSuperclass ⊢
      rw [ihSuperclass.of_running.1, if_pos rfl, if_pos rfl, untouched]
      exact .both (.inr rfl)
    · rw [Function.update_of_ne (Ne.symm same)] at ihSuperclass ⊢
      rw [if_neg same, if_neg same, List.nil_append, List.append_nil]
      exact ihSuperclass

theorem settled (course : Course setup fuel enclosing action machine events) :
    Settled machine.phases (endState (action (setup.services fuel) machine)).phases :=
  fun _ => ⟨_, course.steps⟩

/-- **When a class starts, its superclass is done, or running inside an initializer around it.** -/
theorem superclassReady (course : Course setup fuel enclosing action machine events)
    (covers : Covers enclosing machine.phases) {c s : LinkedClass} {around : List String}
    {phases : Phases} (member : .started c around phases ∈ events)
    (extended : c.superclass = some s) (different : s.name ≠ c.name) :
    phases s.name = .done ∨ phases s.name = .running ∧ s.name ∈ around := by
  induction course with
  | quiet quiet => cases member
  | followed first rest ihFirst ihRest =>
    rcases List.mem_append.mp member with member | member
    · exact ihFirst covers member
    · exact ihRest (first.settled.covers covers) member
  | exhausted => cases member
  | called inside ih => exact ih covers member
  | @initialized _ enclosing c' machine ready above within untouched superclass reached initializer
      exact ihSuperclass ihInitializer =>
    have inside : Covers (c'.name :: enclosing) (withPhase c' .running machine).phases :=
      phases_withPhase.symm ▸ covers.enter c'.name
    have insideStill := superclass.settled.covers inside
    rw [reached] at insideStill
    rcases List.mem_cons.mp member with first | member
    · cases first
    rcases List.mem_append.mp member with member | member
    · exact ihSuperclass inside member
    rcases List.mem_cons.mp member with start | member
    · cases start
      exact Exec.superclassReady insideStill reached s extended different
    rcases List.mem_append.mp member with member | member
    · exact ihInitializer insideStill member
    · cases List.mem_singleton.mp member
  | @refused _ enclosing c' machine _ _ _ untouched superclass stopped exact ihSuperclass =>
    have inside : Covers (c'.name :: enclosing) (withPhase c' .running machine).phases :=
      phases_withPhase.symm ▸ covers.enter c'.name
    rcases List.mem_cons.mp member with first | member
    · cases first
    rcases List.mem_append.mp member with member | member
    · exact ihSuperclass inside member
    · cases List.mem_singleton.mp member

end Course

end JavaMachine
