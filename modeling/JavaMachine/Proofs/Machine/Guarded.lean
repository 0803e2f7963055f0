import JavaMachine.Instruction.Basic
import JavaMachine.Proofs.Machine.Phases

/-! # Guarded access to classes

What uses the static part of a class, or makes an instance of it, first finds the class, then
initializes it, then takes what else it needs, and only then acts. The parts before and after the
initialization are inert: they make no calls, and leave classes and instances alone. So the act
finds the class initialized, or its initializer running, and a class whose initialization failed is
left as it was. -/

namespace JavaMachine

/-- A state with a machine in it. -/
class MachineState (σ : Type) where
  machine : σ → Machine
  replace : σ → Machine → σ
  replace_machine (state : σ) : replace state (machine state) = state
  machine_replace (state : σ) (other : Machine) : machine (replace state other) = other

instance : MachineState Machine where
  machine machine := machine
  replace _ machine := machine
  replace_machine _ := rfl
  machine_replace _ _ := rfl

instance : MachineState StepState where
  machine state := state.machine
  replace state machine := { state with machine }
  replace_machine _ := rfl
  machine_replace _ _ := rfl

open MachineState (machine replace)

/-- An action on the machine of a state. -/
def Operation.ofExec {σ α : Type} [MachineState σ] (action : Exec α) : Operation σ α :=
  fun services state =>
    match action services (machine state) with
    | .ok value after => .ok value (replace state after)
    | .error interruption after => .error interruption (replace state after)

theorem Operation.ofExec_eq {α : Type} (action : Exec α) : ofExec action = action := by
  funext services state
  unfold ofExec
  change (match action services state with
    | .ok value after => EStateM.Result.ok value after
    | .error interruption after => .error interruption after) = _
  cases action services state <;> rfl

theorem Operation.ofExec_eq_onMachine {α : Type} (action : Exec α) :
    ofExec action = Step.onMachine action :=
  rfl

theorem Operation.of_ofExec_ok {σ α : Type} [MachineState σ] {action : Exec α}
    {services : Services} {state after : σ} {value : α}
    (ended : ofExec action services state = .ok value after) :
    action services (machine state) = .ok value (machine after) := by
  unfold ofExec at ended
  cases inner : action services (machine state) with
  | ok result reached =>
    rw [inner] at ended
    cases ended
    rw [MachineState.machine_replace]
  | error interruption reached =>
    rw [inner] at ended
    cases ended

/-! ## Inert operations -/

/-- A machine in which classes and instances are as they were: in no other phase, with the same
static fields, and with no new instances except strings and arrays. -/
structure Spares (before after : Machine) : Prop where
  phases : after.phases = before.phases
  states (name : String) (state : ClassState) (known : before.classes.lookup name = some state) :
    ∃ links, after.classes.lookup name = some { state with links }
  heap : ∃ made, after.heap.objects.toList = before.heap.objects.toList ++ made ∧
    ∀ object ∈ made, ∀ slots, object.body ≠ .fields slots

section Spares

variable {before between after : Machine}

theorem Spares.of_same (classes : after.classes = before.classes)
    (heap : after.heap = before.heap) : Spares before after where
  phases := by
    unfold Machine.phases
    rw [classes]
  states name state known := ⟨state.links, by rw [classes, known]⟩
  heap := ⟨[], by rw [heap, List.append_nil], nofun⟩

theorem Spares.trans (first : Spares before between) (second : Spares between after) :
    Spares before after where
  phases := second.phases.trans first.phases
  states name state known := by
    obtain ⟨links, found⟩ := first.states name state known
    have foundStill := second.states name { state with links } found
    exact foundStill
  heap := by
    obtain ⟨made, added, without⟩ := first.heap
    obtain ⟨more, addedMore, withoutMore⟩ := second.heap
    refine ⟨made ++ more, by rw [addedMore, added, List.append_assoc], fun object member => ?_⟩
    rcases List.mem_append.mp member with member | member
    · exact without object member
    · exact withoutMore object member

end Spares

/-- An operation that makes no calls and leaves classes and instances as they are. -/
structure Inert {σ α : Type} [MachineState σ] (operation : Operation σ α) : Prop where
  callFree (services : Services) (invoke : Invoker) (state : σ) :
    operation { services with invoke } state = operation services state
  spares (services : Services) (state : σ) :
    Spares (machine state) (machine (endState (operation services state)))

section Inert

variable {σ α β : Type} [MachineState σ]

theorem inert_of_same {operation : Operation σ α}
    (callFree : ∀ services invoke state,
      operation { services with invoke } state = operation services state)
    (same : ∀ services state,
      machine (endState (operation services state)) = machine state) : Inert operation where
  callFree := callFree
  spares services state := by
    rw [same]
    exact .of_same rfl rfl

theorem inert_pure (value : α) : Inert (pure value : Operation σ α) :=
  inert_of_same (fun _ _ _ => rfl) fun _ _ => rfl

theorem inert_throw (interruption : Interruption) :
    Inert (throw interruption : Operation σ α) :=
  inert_of_same (fun _ _ _ => rfl) fun _ _ => rfl

theorem Inert.bind {operation : Operation σ α} {next : α → Operation σ β} (first : Inert operation)
    (rest : ∀ value, Inert (next value)) : Inert (operation >>= next) where
  callFree services invoke state := by
    simp only [Bind.bind, ReaderT.bind, EStateM.bind, first.callFree]
    cases operation services state with
    | ok value after => exact (rest value).callFree services invoke after
    | error interruption after => rfl
  spares services state := by
    have spared := first.spares services state
    simp only [Bind.bind, ReaderT.bind, EStateM.bind]
    cases ended : operation services state with
    | ok value after =>
      rw [ended] at spared
      exact spared.trans ((rest value).spares services after)
    | error interruption after =>
      rw [ended] at spared
      exact spared

theorem Inert.tryCatch {operation : Operation σ α} {handle : Interruption → Operation σ α}
    (first : Inert operation) (rest : ∀ interruption, Inert (handle interruption)) :
    Inert (tryCatch operation handle) where
  callFree services invoke state := by
    simp only [MonadExcept.tryCatch, tryCatchThe, MonadExceptOf.tryCatch, EStateM.tryCatch,
      first.callFree]
    cases operation services state with
    | ok value after => rfl
    | error interruption after => exact (rest interruption).callFree services invoke after
  spares services state := by
    have spared := first.spares services state
    simp only [MonadExcept.tryCatch, tryCatchThe, MonadExceptOf.tryCatch, EStateM.tryCatch]
    cases ended : operation services state with
    | ok value after =>
      rw [ended] at spared
      exact spared
    | error interruption after =>
      rw [ended] at spared
      exact spared.trans ((rest interruption).spares services after)

end Inert

namespace Exec

theorem inert_get : Inert (get : Exec Machine) :=
  inert_of_same (fun _ _ _ => rfl) fun _ _ => rfl

theorem inert_object (ref : Ref) : Inert (object ref) :=
  inert_get.bind fun _ => inert_pure _

theorem inert_load (name : String) : Inert (load name) where
  callFree _ _ _ := rfl
  spares services machine := by
    unfold load
    split
    · exact .of_same rfl rfl
    · exact .of_same rfl rfl

theorem inert_loadArray (component : FieldType) : Inert (loadArray component) :=
  inert_load _

/-- Making an object that has no fields. -/
theorem inert_allocate {object : HeapObject} (without : ∀ slots, object.body ≠ .fields slots) :
    Inert (allocate object) where
  callFree _ _ _ := rfl
  spares services machine := {
    phases := rfl
    states := fun _ state known => ⟨state.links, known⟩
    heap := by
      refine ⟨[object], Array.toList_push .., fun other member => ?_⟩
      rw [List.mem_singleton.mp member]
      exact without }

theorem inert_newString (text : String) : Inert (newString text) where
  callFree _ _ _ := rfl
  spares services machine := by
    have made : Inert (allocate ⟨services.stringClass, .text text⟩) := inert_allocate nofun
    exact made.spares services machine

theorem inert_allocateElements (c : LinkedClass) (elements : Array Value) :
    Inert (allocateElements c elements) := by
  unfold allocateElements
  split
  · exact inert_throw _
  · exact inert_allocate nofun

end Exec

/-! ## Guards -/

/-- An access to a class that the initialization of the class guards. -/
structure Guarded {σ α ρ τ : Type} [MachineState σ] (access : Operation σ α) (find : Operation σ ρ)
    (on : ρ → LinkedClass) (prepare : ρ → Operation σ τ) (act : ρ → τ → Operation σ α) : Prop where
  /-- The access does this and nothing else. -/
  exact : access = do
    let found ← find
    Operation.ofExec (Exec.ensureInitialized (on found))
    let prepared ← prepare found
    act found prepared
  find_inert : Inert find
  prepare_inert (found : ρ) : Inert (prepare found)
  /-- When the access acts, the class is initialized or its initializer is running. -/
  acts (services : Services) (state reached ready after : σ) (found : ρ) (prepared : τ)
    (finds : find services state = .ok found reached)
    (initialized :
      Operation.ofExec (Exec.ensureInitialized (on found)) services reached = .ok () ready)
    (prepares : prepare found services ready = .ok prepared after) :
    access services state = act found prepared services after ∧
      ((machine after).phases (on found).name = .done ∨
        (machine after).phases (on found).name = .running)
  /-- On a class whose initialization failed, the access fails because of that, and leaves the class
  alone. -/
  fails (services : Services) (state reached : σ) (found : ρ)
    (finds : find services state = .ok found reached)
    (failed : (machine reached).phases (on found).name = .failed) :
    access services state = .error (.fatal (.classInitialization (on found).name)) reached ∧
      Spares (machine state) (machine reached)

theorem Guarded.of_exact {σ α ρ τ : Type} [MachineState σ] {access : Operation σ α}
    {find : Operation σ ρ} {on : ρ → LinkedClass} {prepare : ρ → Operation σ τ}
    {act : ρ → τ → Operation σ α}
    (exact : access = do
      let found ← find
      Operation.ofExec (Exec.ensureInitialized (on found))
      let prepared ← prepare found
      act found prepared)
    (find_inert : Inert find) (prepare_inert : ∀ found, Inert (prepare found)) :
    Guarded access find on prepare act where
  exact := exact
  find_inert := find_inert
  prepare_inert := prepare_inert
  acts services state reached ready after found prepared finds initialized prepares := by
    have spared := (prepare_inert found).spares services ready
    rw [prepares] at spared
    rw [exact, Operation.bind_of_ok finds, Operation.bind_of_ok initialized,
      Operation.bind_of_ok prepares]
    have kept : (machine after).phases = (machine ready).phases := spared.phases
    rw [kept]
    exact ⟨rfl, Exec.phase_of_ensureInitialized (Operation.of_ofExec_ok initialized)⟩
  fails services state reached found finds failed := by
    have spared := find_inert.spares services state
    rw [finds] at spared
    refine ⟨?_, spared⟩
    rw [exact, Operation.bind_of_ok finds]
    apply Operation.bind_of_error
    unfold Operation.ofExec
    rw [Exec.ensureInitialized_of_failed failed]
    dsimp only
    rw [MachineState.replace_machine]

end JavaMachine
