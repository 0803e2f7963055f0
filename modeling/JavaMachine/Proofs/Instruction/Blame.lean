import JavaMachine.Proofs.Instruction.StackDepth

/-! # Whose stack is full

An error that says that an operand stack is full need not be about the frame whose instruction ends
with it: an instruction that initializes a class calls methods of its own, and a class source of the
host may report what it likes. Errors of the loader are told apart by where they come from
(`Services.Blames`), and those of calls by silencing them (`Services.silenced`): a call that finds a
stack full ends out of fuel instead, and everything else goes on as it did
(`Step.hushed_instruction`). Where calls are silent, no action of the machine finds a stack full
(`Exec.Blameless`). -/

namespace JavaMachine

open Operation (bind_of_ok bind_of_error)

/-! ## Silencing calls -/

/-- The error of a call whose stack is full is hidden: the call ends out of fuel. -/
def hush {σ α : Type} : EStateM.Result Interruption σ α → EStateM.Result Interruption σ α
  | .error (.fatal (.virtualMachine (.stackOverflow _ _))) after => .error .outOfFuel after
  | result => result

/-- Services whose calls find no stack full. -/
def Services.silenced (services : Services) : Services where
  sources := services.sources
  limits := services.limits
  stringClass := services.stringClass
  invoke owner index arguments machine := hush (services.invoke owner index arguments machine)

/-- What a result is when calls are silenced: the same, unless it was the error of a full stack. -/
inductive Hushes {σ α : Type} :
    EStateM.Result Interruption σ α → EStateM.Result Interruption σ α → Prop where
  | same (result : EStateM.Result Interruption σ α) : Hushes result result
  | full {error : Error} {state : σ} (overflow : error.IsOverflow) :
      Hushes (.error (.fatal error) state) (.error .outOfFuel state)

theorem hushes_hush {σ α : Type} (result : EStateM.Result Interruption σ α) :
    Hushes result (hush result) := by
  unfold hush
  split
  · exact .full ⟨_, _, rfl⟩
  · exact .same _

/-- An action that does with silenced calls what it does without, up to the error of a full stack.
-/
def Hushed {σ α : Type} (action : ReaderT Services (EStateM Interruption σ) α) : Prop :=
  ∀ services state, Hushes (action services state) (action services.silenced state)

section Hushed

variable {σ α β : Type}

/-- What goes well goes as well when calls are silenced. -/
theorem Hushed.silenced_of_ok {action : ReaderT Services (EStateM Interruption σ) α}
    (hushed : Hushed action) {services : Services} {state after : σ} {value : α}
    (ended : action services state = .ok value after) :
    action services.silenced state = .ok value after := by
  have hushes := hushed services state
  rw [ended] at hushes
  generalize action services.silenced state = result at hushes ⊢
  cases hushes
  rfl

/-- What goes well when calls are silenced goes well. -/
theorem Hushed.ok_of_silenced {action : ReaderT Services (EStateM Interruption σ) α}
    (hushed : Hushed action) {services : Services} {state after : σ} {value : α}
    (ended : action services.silenced state = .ok value after) :
    action services state = .ok value after := by
  have hushes := hushed services state
  rw [ended] at hushes
  generalize action services state = result at hushes ⊢
  cases hushes
  rfl

theorem hushed_of_same {action : ReaderT Services (EStateM Interruption σ) α}
    (same : ∀ services state, action services.silenced state = action services state) :
    Hushed action := by
  intro services state
  rw [same services state]
  exact .same _

theorem Hushed.bind {action : ReaderT Services (EStateM Interruption σ) α}
    {next : α → ReaderT Services (EStateM Interruption σ) β} (first : Hushed action)
    (rest : ∀ value, Hushed (next value)) : Hushed (action >>= next) := by
  intro services state
  have begins := first services state
  simp only [Bind.bind, ReaderT.bind, EStateM.bind]
  generalize action services state = result at begins
  generalize action services.silenced state = result' at begins
  cases begins with
  | same =>
    cases result with
    | ok value after => exact rest value services after
    | error interruption after => exact .same _
  | full overflow => exact .full overflow

end Hushed

namespace Exec

theorem hushed_modify (change : Machine → Machine) : Hushed (modify change : Exec Unit) :=
  hushed_of_same fun _ _ => rfl

theorem hushed_invoke (owner : LinkedClass) (index : Nat) (arguments : List Value) :
    Hushed (invoke owner index arguments) :=
  fun services machine => hushes_hush (services.invoke owner index arguments machine)

/-- Whatever interrupts an action, a change is made and the interruption goes on. -/
theorem hushed_andChange {α : Type} {action : Exec α} (inner : Hushed action)
    (change : Machine → Machine) :
    Hushed (tryCatch action fun interruption => do
      modify change
      throw interruption) := by
  intro services machine
  have begins := inner services machine
  simp only [tryCatch, tryCatchThe, MonadExceptOf.tryCatch, EStateM.tryCatch]
  generalize action services machine = result at begins ⊢
  generalize action services.silenced machine = result' at begins ⊢
  cases begins with
  | same => exact .same _
  | full overflow => exact .full overflow

theorem hushed_ensureInitialized (c : LinkedClass)
    (above : Hushed (ensureInitialized.ofSuperclass c.superclass))
    (within : Hushed (do
      assignConstants c c.staticFields
      runInitializer c : Exec Unit)) : Hushed (ensureInitialized c) := by
  rw [ensureInitialized_eq]
  refine Hushed.bind (hushed_of_same fun _ _ => rfl) fun state => ?_
  split
  · exact hushed_of_same fun _ _ => rfl
  · exact hushed_of_same fun _ _ => rfl
  · exact hushed_of_same fun _ _ => rfl
  · refine (hushed_modify _).bind fun _ => ?_
    exact (hushed_andChange (above.bind fun _ => within) _).bind fun _ => hushed_modify _

theorem hushed_setStatic (c : LinkedClass) (slot : Nat) (value : Value) :
    Hushed (setStatic c slot value) := by
  refine Hushed.bind (hushed_of_same fun _ _ => rfl) fun state => ?_
  split
  · exact hushed_modify _
  · exact hushed_of_same fun _ _ => rfl

theorem hushed_intern (text : String) : Hushed (intern text) := by
  refine Hushed.bind (hushed_of_same fun _ _ => rfl) fun machine => ?_
  split
  · exact hushed_of_same fun _ _ => rfl
  · refine Hushed.bind (hushed_of_same fun _ _ => rfl) fun ref => ?_
    exact (hushed_modify _).bind fun _ => hushed_of_same fun _ _ => rfl

end Exec

namespace Step

theorem hushed_onMachine {α : Type} {action : Exec α} (inner : Hushed action) :
    Hushed (onMachine action) := by
  intro services state
  have begins := inner services state.machine
  simp only [onMachine]
  generalize action services state.machine = result at begins ⊢
  generalize action services.silenced state.machine = result' at begins ⊢
  cases begins with
  | same => exact .same _
  | full overflow => exact .full overflow

end Step

theorem hushed_compositional :
    Compositional (fun _ action => Hushed action) (fun _ action => Hushed action) where
  exec_pure _ := hushed_of_same fun _ _ => rfl
  exec_bind := Hushed.bind
  exec_throw _ := hushed_of_same fun _ _ => rfl
  exec_get := hushed_of_same fun _ _ => rfl
  exec_load _ := hushed_of_same fun _ _ => rfl
  exec_invoke := Exec.hushed_invoke
  exec_setStatic := Exec.hushed_setStatic
  exec_allocate _ := hushed_of_same fun _ _ => rfl
  exec_setSlot _ _ _ := hushed_of_same fun _ _ => rfl
  exec_newString _ := hushed_of_same fun _ _ => rfl
  exec_intern := Exec.hushed_intern
  exec_print _ _ := hushed_of_same fun _ _ => rfl
  exec_readClock := hushed_of_same fun _ _ => rfl
  exec_initializing := Exec.hushed_ensureInitialized
  step_pure _ := hushed_of_same fun _ _ => rfl
  step_bind := Hushed.bind
  step_throw _ := hushed_of_same fun _ _ => rfl
  step_onMachine := Step.hushed_onMachine
  step_onFrame _ := hushed_of_same fun _ _ => rfl
  step_frame := hushed_of_same fun _ _ => rfl
  step_cursor := hushed_of_same fun _ _ => rfl
  step_seek _ := hushed_of_same fun _ _ => rfl
  step_arrayLimit := hushed_of_same fun _ _ => rfl
  step_setLink _ _ := hushed_of_same fun _ _ => rfl

/-- **An instruction does the same when the calls that it makes are silenced**, unless it ends
because a stack is full. -/
theorem Step.hushed_instruction : Hushed Step.instruction :=
  hushed_compositional.step_instruction

/-! ## Actions that find no stack full -/

/-- The error is one with which a class may be loaded. -/
def Services.LoadsWith (services : Services) (error : Error) : Prop :=
  ∃ name loaded after, Loader.load services.sources name loaded = .error error after

/-- An error that says that a stack is full, and with which no class is loaded. -/
def Services.Blames (services : Services) (error : Error) : Prop :=
  error.IsOverflow ∧ ¬ services.LoadsWith error

/-- Services whose calls find no stack full. -/
def Services.Silent (services : Services) : Prop :=
  ∀ owner index arguments machine error after,
    services.invoke owner index arguments machine = .error (.fatal error) after →
      ¬ error.IsOverflow

theorem Services.silent_silenced (services : Services) : services.silenced.Silent := by
  rintro owner index arguments machine error after ended ⟨site, limit, rfl⟩
  have hushed : hush (services.invoke owner index arguments machine) = _ := ended
  unfold hush at hushed
  split at hushed
  · cases hushed
  · next plain => exact plain site limit after hushed

namespace Exec

variable {services : Services} {α β : Type} {action : Exec α}

/-- An action that is not to blame for a full stack. -/
def Blameless (services : Services) (action : Exec α) : Prop :=
  ∀ machine error after, action services machine = .error (.fatal error) after →
    ¬ services.Blames error

theorem blameless_of_ok (completes : ∀ machine, ∃ value after,
    action services machine = .ok value after) : Blameless services action := by
  intro machine error after ended
  obtain ⟨value, left, completed⟩ := completes machine
  cases completed.symm.trans ended

theorem Blameless.bind {next : α → Exec β} (first : Blameless services action)
    (rest : ∀ value, Blameless services (next value)) : Blameless services (action >>= next) := by
  intro machine error after
  cases ended : action services machine with
  | ok value between =>
    rw [bind_of_ok ended]
    exact rest value between error after
  | error interruption between =>
    rw [bind_of_error ended]
    intro same
    cases same
    exact first machine error after ended

theorem blameless_pure (value : α) : Blameless services (pure value : Exec α) :=
  blameless_of_ok fun machine => ⟨value, machine, rfl⟩

theorem blameless_modify (change : Machine → Machine) :
    Blameless services (modify change : Exec Unit) :=
  blameless_of_ok fun machine => ⟨(), change machine, rfl⟩

theorem blameless_get : Blameless services (get : Exec Machine) :=
  blameless_of_ok fun machine => ⟨machine, machine, rfl⟩

theorem blameless_fail {error : Error} (proper : ¬ error.IsOverflow) :
    Blameless services (fail error : Exec α) := by
  intro machine other after ended
  cases ended
  exact fun blamed => proper blamed.1

theorem not_isOverflow_of_ne {error : Error}
    (other : ∀ site limit, error ≠ .virtualMachine (.stackOverflow site limit)) :
    ¬ error.IsOverflow := by
  rintro ⟨site, limit, same⟩
  exact other site limit same

theorem blameless_thrown (exception : Ref) :
    Blameless services (throw (.thrown exception) : Exec α) := by
  intro machine error after ended
  cases ended

theorem blameless_load (name : String) : Blameless services (load name) := by
  intro machine error after ended blamed
  unfold load at ended
  cases loaded : Loader.load services.sources name machine.loaded with
  | ok c left =>
    rw [loaded] at ended
    cases ended
  | error other left =>
    rw [loaded] at ended
    cases ended
    exact blamed.2 ⟨_, _, _, loaded⟩

theorem blameless_invoke (silent : services.Silent) (owner : LinkedClass) (index : Nat)
    (arguments : List Value) : Blameless services (invoke owner index arguments) :=
  fun machine error after ended blamed =>
    silent owner index arguments machine error after ended blamed.1

theorem blameless_classState (c : LinkedClass) : Blameless services (classState c) :=
  blameless_get.bind fun _ => blameless_pure _

theorem blameless_object (ref : Ref) : Blameless services (object ref) :=
  blameless_get.bind fun _ => blameless_pure _

theorem blameless_newString (text : String) : Blameless services (newString text) :=
  blameless_of_ok fun _ => ⟨_, _, rfl⟩

theorem blameless_intern (text : String) : Blameless services (intern text) := by
  refine blameless_get.bind fun machine => ?_
  split
  · exact blameless_pure _
  · exact (blameless_newString text).bind fun _ =>
      (blameless_modify _).bind fun _ => blameless_pure _

theorem blameless_setStatic (c : LinkedClass) (slot : Nat) (value : Value) :
    Blameless services (setStatic c slot value) := by
  refine (blameless_classState c).bind fun state => ?_
  split
  · exact blameless_modify _
  · exact blameless_fail (not_isOverflow_of_ne nofun)

theorem blameless_getStatic (c : LinkedClass) (slot : Nat) :
    Blameless services (getStatic c slot) := by
  refine (blameless_classState c).bind fun state => ?_
  split
  · exact blameless_pure _
  · exact blameless_fail (not_isOverflow_of_ne fun _ _ clash => by cases clash)

theorem blameless_getField (ref : Ref) (slot : Nat) : Blameless services (getField ref slot) := by
  refine (blameless_object ref).bind fun object => ?_
  split
  · exact blameless_pure _
  · exact blameless_fail (not_isOverflow_of_ne fun _ _ clash => by cases clash)

theorem blameless_putField (ref : Ref) (slot : Nat) (value : Value) :
    Blameless services (putField ref slot value) := by
  refine blameless_get.bind fun machine => ?_
  split
  · exact blameless_modify _
  · exact (blameless_object ref).bind fun _ => blameless_fail (not_isOverflow_of_ne nofun)

theorem blameless_allocate (object : HeapObject) : Blameless services (allocate object) :=
  blameless_of_ok fun _ => ⟨_, _, rfl⟩

theorem blameless_allocateZeros (c : LinkedClass) (length : Nat) :
    Blameless services (allocateZeros c length) := by
  unfold allocateZeros
  split
  · exact blameless_fail (not_isOverflow_of_ne nofun)
  · exact blameless_allocate _

theorem blameless_allocateElements (c : LinkedClass) (elements : Array Value) :
    Blameless services (allocateElements c elements) := by
  unfold allocateElements
  split
  · exact blameless_fail (not_isOverflow_of_ne nofun)
  · exact blameless_allocate _

theorem blameless_assignConstants (c : LinkedClass) (fields : List Field) :
    Blameless services (assignConstants c fields) := by
  induction fields with
  | nil => exact blameless_pure _
  | cons field rest ih =>
    rw [assignConstants]
    split
    · next constant _ =>
      have started : Blameless services (constantValue constant) := by
        cases constant with
        | string text => exact (blameless_intern text).bind fun _ => blameless_pure _
        | int | long | float | double => exact blameless_pure _
      exact started.bind fun value => (blameless_setStatic c _ value).bind fun _ => ih
    · exact ih

/-- An action that changes the machine when it is interrupted is interrupted by the same. -/
theorem Blameless.andChange (inner : Blameless services action) (change : Machine → Machine) :
    Blameless services (tryCatch action fun interruption => do
      modify change
      throw interruption) := by
  intro machine error after ended
  simp only [tryCatch, tryCatchThe, MonadExceptOf.tryCatch, EStateM.tryCatch] at ended
  cases carried : action services machine with
  | ok value left =>
    rw [carried] at ended
    cases ended
  | error interruption left =>
    rw [carried] at ended
    cases ended
    exact inner _ _ _ carried

section Silent

variable (silent : services.Silent)

include silent

theorem blameless_runInitializer (c : LinkedClass) : Blameless services (runInitializer c) := by
  unfold runInitializer
  split
  · exact blameless_pure _
  · exact (blameless_invoke silent c _ []).bind fun _ => blameless_pure _

/-- The initialization of a class goes up the chain of superclasses. -/
theorem blameless_ensureInitialized : ∀ c : LinkedClass, Blameless services (ensureInitialized c)
  | .mk info superclass interfaces element table => by
    have above : Blameless services (ensureInitialized.ofSuperclass superclass) := by
      cases superclass with
      | none => exact blameless_pure _
      | some above => exact blameless_ensureInitialized above
    rw [ensureInitialized_eq]
    refine (blameless_classState _).bind fun state => ?_
    split
    · exact blameless_pure _
    · exact blameless_pure _
    · exact blameless_fail (not_isOverflow_of_ne nofun)
    · refine (blameless_modify _).bind fun _ => ?_
      refine (Blameless.andChange (above.bind fun _ => ?_) _).bind fun _ => blameless_modify _
      exact (blameless_assignConstants _ _).bind fun _ => blameless_runInitializer silent _

theorem blameless_newThrowable (className : String) (detail : Option String) :
    Blameless services (newThrowable className detail) := by
  refine (blameless_load className).bind fun c => ?_
  refine (blameless_ensureInitialized silent c).bind fun _ => ?_
  refine (blameless_allocate _).bind fun exception => ?_
  dsimp only
  split
  · split
    · have fails : Blameless services
          (fail (.noSuchField className MemberName.detailMessage) : Exec Unit) :=
        blameless_fail (not_isOverflow_of_ne nofun)
      exact fails.bind fun _ => blameless_pure _
    · refine (blameless_newString _).bind fun message => ?_
      exact (blameless_putField _ _ _).bind fun _ => blameless_pure _
  · exact blameless_pure _

/-- Throwing finds no stack full. -/
theorem blameless_throwNew (className : String) (detail : Option String) :
    Blameless services (throwNew className detail : Exec α) :=
  (blameless_newThrowable silent className detail).bind fun _ => blameless_thrown _

end Silent

end Exec

end JavaMachine
