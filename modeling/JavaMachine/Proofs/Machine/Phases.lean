import JavaMachine.Proofs.Machine.Compositional

/-! # Phases of initialization

How far the initialization of each class has come is part of the state of the machine. What has an
end carries out the initialization of some classes and leaves all others where they were
(`Settled`); meanwhile the initializers that are running are those that enclose it (`Covers`). The
initialization of one class goes by its phase, and only an untouched class is ever initialized. -/

namespace JavaMachine

/-! ## Operations -/

/-- Something that works on a state: an action on a machine, or a part of an instruction. -/
abbrev Operation (σ α : Type) := ReaderT Services (EStateM Interruption σ) α

/-- The state that something ends in, with a result or without. -/
def endState {σ α : Type} : EStateM.Result Interruption σ α → σ
  | .ok _ state | .error _ state => state

namespace Operation

variable {σ α β : Type} {services : Services} {state after : σ} {first : Operation σ α}
  {next : α → Operation σ β}

theorem bind_of_ok {value : α} (ended : first services state = .ok value after) :
    (first >>= next) services state = next value services after := by
  simp only [Bind.bind, ReaderT.bind, EStateM.bind, ended]

theorem bind_of_error {interruption : Interruption}
    (ended : first services state = .error interruption after) :
    (first >>= next) services state = .error interruption after := by
  simp only [Bind.bind, ReaderT.bind, EStateM.bind, ended]

theorem exists_of_bind_ok {result : β} (ended : (first >>= next) services state = .ok result after) :
    ∃ value middle, first services state = .ok value middle ∧
      next value services middle = .ok result after := by
  simp only [Bind.bind, ReaderT.bind, EStateM.bind] at ended
  cases acted : first services state with
  | ok value middle =>
    rw [acted] at ended
    exact ⟨value, middle, rfl, ended⟩
  | error interruption middle =>
    rw [acted] at ended
    cases ended

end Operation

/-! ## Before and after -/

/-- How far the initialization of each class has come, by the name of the class. -/
abbrev Phases := String → InitPhase

/-- How far the initialization of each class has come in a machine. -/
def Machine.phases (machine : Machine) : Phases := fun name =>
  ((machine.classes.lookup name).map ClassState.phase).getD (.initial name)

/-- The steps of a class from a phase to a phase while something happens that has an end: none at
all, or those of an initialization that is carried out meanwhile. -/
inductive Steps : InitPhase → List InitPhase → InitPhase → Prop where
  | none {phase : InitPhase} : Steps phase [] phase
  | both {outcome : InitPhase} (ended : outcome = .done ∨ outcome = .failed) :
      Steps .untouched [.running, outcome] outcome

/-- Phases as they are before and after something that has an end. -/
def Settled (before after : Phases) : Prop :=
  ∀ name, ∃ taken, Steps (before name) taken (after name)

/-- The running initializers are among those that enclose what happens. -/
def Covers (enclosing : List String) (phases : Phases) : Prop :=
  ∀ name, phases name = .running → name ∈ enclosing

section Settled

variable {enclosing : List String} {before between after : Phases} {name : String}

theorem Steps.append {first second : List InitPhase} {before between after : InitPhase}
    (former : Steps before first between) (latter : Steps between second after) :
    Steps before (first ++ second) after := by
  cases latter with
  | none =>
    rw [List.append_nil]
    exact former
  | both ended =>
    cases former with
    | none => exact .both ended
    | both ended' => cases ended' <;> contradiction

/-- A class whose initializer runs takes no step inside it. -/
theorem Steps.of_running {taken : List InitPhase} {after : InitPhase}
    (steps : Steps .running taken after) : taken = [] ∧ after = .running := by
  cases steps
  exact ⟨rfl, rfl⟩

theorem Steps.count_running_le {taken : List InitPhase} {before after : InitPhase}
    (steps : Steps before taken after) : taken.count .running ≤ 1 := by
  cases steps with
  | none => exact Nat.zero_le 1
  | both ended => rcases ended with rfl | rfl <;> decide

theorem Settled.covers (settled : Settled before after) (covers : Covers enclosing before) :
    Covers enclosing after := by
  intro name running
  obtain ⟨taken, steps⟩ := settled name
  rw [running] at steps
  generalize phase : before name = earlier at steps
  cases steps with
  | none => exact covers name phase
  | both ended => cases ended <;> contradiction

/-- Inside an initializer, it encloses what happens together with the ones around it. -/
theorem Covers.enter (covers : Covers enclosing before) (name : String) :
    Covers (name :: enclosing) (Function.update before name .running) := by
  intro other running
  by_cases same : other = name
  · exact List.mem_cons.mpr (.inl same)
  · rw [Function.update_of_ne same] at running
    exact List.mem_cons_of_mem name (covers other running)

end Settled

/-! ## The phase of a class -/

namespace Exec

variable {services : Services} {machine after : Machine} {c : LinkedClass}

theorem lookup_alter {α : Type} {key name : String} {absent : Unit → α} {f : α → α}
    {entries : List (String × α)} :
    (alter key absent f entries).lookup name =
      if name = key then some (f ((entries.lookup key).getD (absent ()))) else
        entries.lookup name := by
  induction entries with
  | nil =>
    rw [alter, List.lookup_cons]
    by_cases same : name = key
    · simp [same]
    · simp [same, beq_false_of_ne same]
  | cons entry rest ih =>
    obtain ⟨first, value⟩ := entry
    rw [alter]
    by_cases here : first = key
    · subst here
      by_cases same : name = first
      · simp [same]
      · simp [same, List.lookup_cons, beq_false_of_ne same]
    · rw [if_neg (by simpa using here), List.lookup_cons, ih, List.lookup_cons,
        List.lookup_cons]
      by_cases same : name = first
      · subst same
        simp [here]
      · have other : (key == first) = false := beq_false_of_ne (Ne.symm here)
        simp [beq_false_of_ne same, other]

/-- The state of a class in a machine. -/
def stateIn (c : LinkedClass) (machine : Machine) : ClassState :=
  (machine.classes.lookup c.name).getD (.initial c)

theorem phase_stateIn : (stateIn c machine).phase = machine.phases c.name := by
  rw [stateIn, Machine.phases]
  cases machine.classes.lookup c.name <;> rfl

/-- A machine with the state of a class changed. -/
def withClass (c : LinkedClass) (change : ClassState → ClassState) (machine : Machine) : Machine :=
  { machine with classes := alter c.name (fun _ => .initial c) change machine.classes }

theorem stateIn_withClass {change : ClassState → ClassState} :
    stateIn c (withClass c change machine) = change (stateIn c machine) := by
  rw [stateIn, withClass, lookup_alter, if_pos rfl]
  rfl

theorem phases_withClass {change : ClassState → ClassState} :
    (withClass c change machine).phases =
      Function.update machine.phases c.name (change (stateIn c machine)).phase := by
  funext name
  rw [Function.update_apply, Machine.phases, withClass, lookup_alter]
  split
  · rfl
  · rfl

/-- A machine in which the initialization of a class has come so far. -/
def withPhase (c : LinkedClass) (phase : InitPhase) (machine : Machine) : Machine :=
  withClass c (fun state => { state with phase }) machine

theorem phases_withPhase {phase : InitPhase} :
    (withPhase c phase machine).phases = Function.update machine.phases c.name phase :=
  phases_withClass

theorem classState_eq : classState c services machine = .ok (stateIn c machine) machine :=
  rfl

theorem setStatic_eq (c : LinkedClass) (slot : Nat) (value : Value) (services : Services)
    (machine : Machine) :
    setStatic c slot value services machine =
      if slot < (stateIn c machine).statics.size then
        .ok () (withClass c
          (fun state => { state with statics := state.statics.setIfInBounds slot value }) machine)
      else .error (.fatal (.noSuchField c.name s!"static #{slot}")) machine := by
  have read : classState c services machine = .ok (stateIn c machine) machine := rfl
  unfold setStatic
  rw [Operation.bind_of_ok read]
  split
  · rfl
  · rfl

theorem setPhase_eq {phase : InitPhase} :
    setPhase c phase services machine = .ok () (withPhase c phase machine) :=
  rfl

/-! ## Initialization -/

/-- The part of the initialization of a class that follows that of its superclass: its constants are
assigned, then its static initializer runs. -/
def initializeSelf (c : LinkedClass) : Exec Unit := do
  assignConstants c c.staticFields
  runInitializer c

/-- The phase that an initialization ends with. -/
def outcome {α : Type} : EStateM.Result Interruption Machine α → InitPhase
  | .ok .. => .done
  | .error .. => .failed

/-- How the initialization of a class ends when its initializer has ended so: the phase of the class
is settled. -/
def concluded (c : LinkedClass) :
    EStateM.Result Interruption Machine Unit → EStateM.Result Interruption Machine Unit
  | .ok _ after => .ok () (withPhase c .done after)
  | .error interruption after => .error interruption (withPhase c .failed after)

theorem outcome_eq (result : EStateM.Result Interruption Machine Unit) :
    outcome result = .done ∨ outcome result = .failed := by
  cases result
  · exact .inl rfl
  · exact .inr rfl

theorem phases_concluded (result : EStateM.Result Interruption Machine Unit) :
    (endState (concluded c result)).phases =
      Function.update (endState result).phases c.name (outcome result) := by
  cases result
  · exact phases_withPhase
  · exact phases_withPhase

theorem ensureInitialized_eq (c : LinkedClass) :
    ensureInitialized c = initializing c (do
      ensureInitialized.ofSuperclass c.superclass
      initializeSelf c) := by
  obtain ⟨info, superclass, interfaces, element, table⟩ := c
  rw [ensureInitialized]
  rfl

/-- A class whose initialization is done or running is not initialized again. -/
theorem ensureInitialized_of_begun
    (begun : machine.phases c.name = .done ∨ machine.phases c.name = .running) :
    ensureInitialized c services machine = .ok () machine := by
  rw [← phase_stateIn] at begun
  rw [ensureInitialized_eq, initializing, Operation.bind_of_ok classState_eq]
  rcases begun with done | running
  · rw [done]
    rfl
  · rw [running]
    rfl

/-- A class whose initialization failed is not initialized again, and cannot be used. -/
theorem ensureInitialized_of_failed (failed : machine.phases c.name = .failed) :
    ensureInitialized c services machine =
      .error (.fatal (.classInitialization c.name)) machine := by
  rw [← phase_stateIn] at failed
  rw [ensureInitialized_eq, initializing, Operation.bind_of_ok classState_eq, failed]
  rfl

theorem initializing_of_untouched {action : Exec Unit}
    (untouched : machine.phases c.name = .untouched) :
    initializing c action services machine =
      concluded c (action services (withPhase c .running machine)) := by
  rw [← phase_stateIn] at untouched
  rw [initializing, Operation.bind_of_ok classState_eq, untouched]
  simp only [Bind.bind, ReaderT.bind, EStateM.bind, setPhase_eq, tryCatch, tryCatchThe,
    MonadExceptOf.tryCatch, EStateM.tryCatch]
  cases action services (withPhase c .running machine) with
  | ok _ after => rfl
  | error interruption after => rfl

/-- An untouched class is running while its superclass and then the class itself are initialized. -/
theorem ensureInitialized_of_untouched (untouched : machine.phases c.name = .untouched) :
    ensureInitialized c services machine =
      concluded c ((do
        ensureInitialized.ofSuperclass c.superclass
        initializeSelf c : Exec Unit) services (withPhase c .running machine)) := by
  rw [ensureInitialized_eq]
  exact initializing_of_untouched untouched

/-- A class that is initialized without an interruption is done, or its initializer encloses what
happens. -/
theorem phase_of_ensureInitialized
    (ended : ensureInitialized c services machine = .ok () after) :
    after.phases c.name = .done ∨ after.phases c.name = .running := by
  cases phase : machine.phases c.name with
  | done =>
    rw [ensureInitialized_of_begun (.inl phase)] at ended
    cases ended
    exact .inl phase
  | running =>
    rw [ensureInitialized_of_begun (.inr phase)] at ended
    cases ended
    exact .inr phase
  | failed =>
    rw [ensureInitialized_of_failed phase] at ended
    cases ended
  | untouched =>
    rw [ensureInitialized_of_untouched phase] at ended
    revert ended
    generalize (do
      ensureInitialized.ofSuperclass c.superclass
      initializeSelf c : Exec Unit) services (withPhase c .running machine) = result
    intro ended
    cases result with
    | ok _ inside =>
      cases ended
      exact .inl (phases_withPhase.symm ▸ Function.update_self ..)
    | error interruption inside => cases ended

/-- The superclass of a class whose own part begins is done, or its initializer encloses that of the
class. -/
theorem superclassReady {enclosing : List String}
    (covers : Covers (c.name :: enclosing) after.phases)
    (ended : ensureInitialized.ofSuperclass c.superclass services machine = .ok () after) :
    ∀ s, c.superclass = some s → s.name ≠ c.name →
      after.phases s.name = .done ∨ after.phases s.name = .running ∧ s.name ∈ enclosing := by
  intro s extended different
  rw [extended, ensureInitialized.ofSuperclass] at ended
  rcases phase_of_ensureInitialized ended with done | running
  · exact .inl done
  · rcases List.mem_cons.mp (covers s.name running) with same | member
    · exact absurd same different
    · exact .inr ⟨running, member⟩

end Exec

end JavaMachine
