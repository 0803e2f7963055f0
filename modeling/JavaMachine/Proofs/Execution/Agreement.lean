import JavaMachine.Proofs.Instruction.Compositional
import JavaMachine.Proofs.Native.Compositional

/-! # Agreement of results

Two machines that differ only in how they carry out calls, one of them going on for longer than the
other, agree if every result of the one is a result of the other as well: the same value or
throwable with the same state, or an error of the same variant. Where their calls agree, so does
every instruction and every native method that is put together from the simplest actions. -/

namespace JavaMachine

/-- Errors that differ at most in what they say. -/
def Error.SameVariant (first second : Error) : Prop :=
  first.ctorIdx = second.ctorIdx

/-- What the states are to be that two agreeing results come with. -/
structure Expectation (σ α : Type) where
  ok : α → σ → Prop
  thrown : σ → Prop
  fatal : σ → σ → Prop

/-- A result agrees with another one if it is the same as far as it got. -/
inductive Agrees {σ α : Type} (expected : Expectation σ α) :
    EStateM.Result Interruption σ α → EStateM.Result Interruption σ α → Prop where
  | outOfFuel {state : σ} {result : EStateM.Result Interruption σ α} :
      Agrees expected (.error .outOfFuel state) result
  | ok {value : α} {state : σ} (met : expected.ok value state) :
      Agrees expected (.ok value state) (.ok value state)
  | thrown {exception : Ref} {state : σ} (met : expected.thrown state) :
      Agrees expected (.error (.thrown exception) state) (.error (.thrown exception) state)
  | fatal {first second : Error} {state state' : σ} (variant : first.SameVariant second)
      (met : expected.fatal state state') :
      Agrees expected (.error (.fatal first) state) (.error (.fatal second) state')

namespace Agrees

variable {σ α β : Type} {expected : Expectation σ α} {wanted : Expectation σ β}

/-- Two actions in sequence agree if they do so one after the other. -/
theorem bind {first first' : ReaderT Services (EStateM Interruption σ) α}
    {next next' : α → ReaderT Services (EStateM Interruption σ) β} {less more : Services}
    {state : σ} (firstAgrees : Agrees expected (first less state) (first' more state))
    (thrown : ∀ state, expected.thrown state → wanted.thrown state)
    (fatal : ∀ state state', expected.fatal state state' → wanted.fatal state state')
    (nextAgrees : ∀ value state, expected.ok value state →
      Agrees wanted (next value less state) (next' value more state)) :
    Agrees wanted ((first >>= next) less state) ((first' >>= next') more state) := by
  simp only [Bind.bind, ReaderT.bind, EStateM.bind]
  generalize first less state = result at firstAgrees
  generalize first' more state = result' at firstAgrees
  cases firstAgrees with
  | outOfFuel => exact .outOfFuel
  | ok met => exact nextAgrees _ _ met
  | thrown met => exact .thrown (thrown _ met)
  | fatal variant met => exact .fatal variant (fatal _ _ met)

/-- A weaker expectation is met as well. -/
theorem mono {expected' : Expectation σ α} {result result' : EStateM.Result Interruption σ α}
    (agrees : Agrees expected result result')
    (ok : ∀ value state, expected.ok value state → expected'.ok value state)
    (thrown : ∀ state, expected.thrown state → expected'.thrown state)
    (fatal : ∀ state state', expected.fatal state state' → expected'.fatal state state') :
    Agrees expected' result result' := by
  cases agrees with
  | outOfFuel => exact .outOfFuel
  | ok met => exact .ok (ok _ _ met)
  | thrown met => exact .thrown (thrown _ met)
  | fatal variant met => exact .fatal variant (fatal _ _ met)

end Agrees

/-! ## Actions that keep the number of calls -/

/-- A state that counts the calls in progress. -/
class CountsCalls (σ : Type) where
  calls : σ → Nat

instance : CountsCalls Machine := ⟨Machine.depth⟩

instance : CountsCalls StepState := ⟨(·.machine.depth)⟩

open CountsCalls (calls)

/-- The states are the same and as many calls are in progress as there were. -/
def Expectation.keeping {σ α : Type} [CountsCalls σ] (depth : Nat) : Expectation σ α where
  ok _ state := calls state = depth
  thrown state := calls state = depth
  fatal state state' := state' = state ∧ calls state = depth

/-- Services that differ in how they carry out calls, but agree on what these do. -/
structure Services.Agrees (less more : Services) : Prop where
  sources : more.sources = less.sources
  limits : more.limits = less.limits
  stringClass : more.stringClass = less.stringClass
  invoke (owner : LinkedClass) (index : Nat) (arguments : List Value) (machine : Machine) :
    JavaMachine.Agrees (.keeping machine.depth) (less.invoke owner index arguments machine)
      (more.invoke owner index arguments machine)

/-- An action that makes no more of its services than their calls: it leaves the number of calls in
progress alone, does not go on when they have run out of fuel, and does not tell errors of the same
variant apart. -/
def Uniform {σ α : Type} [CountsCalls σ]
    (action : ReaderT Services (EStateM Interruption σ) α) : Prop :=
  ∀ less more : Services, less.Agrees more → ∀ state,
    Agrees (.keeping (calls state)) (action less state) (action more state)

section Uniform

variable {σ α β : Type} [CountsCalls σ]

theorem uniform_pure (value : α) :
    Uniform (pure value : ReaderT Services (EStateM Interruption σ) α) :=
  fun _ _ _ _ => .ok rfl

theorem Uniform.bind {action : ReaderT Services (EStateM Interruption σ) α}
    {next : α → ReaderT Services (EStateM Interruption σ) β} (first : Uniform action)
    (rest : ∀ value, Uniform (next value)) : Uniform (action >>= next) := by
  intro less more agree state
  refine Agrees.bind (first less more agree state) (fun _ met => met) (fun _ _ met => met) ?_
  intro value after met
  have kept : calls after = calls state := met
  rw [← kept]
  exact rest value less more agree after

theorem uniform_throw (interruption : Interruption) :
    Uniform (throw interruption : ReaderT Services (EStateM Interruption σ) α) := by
  intro less more agree state
  cases interruption with
  | thrown exception => exact .thrown rfl
  | fatal error => exact .fatal rfl ⟨rfl, rfl⟩
  | outOfFuel => exact .outOfFuel

end Uniform

/-! ## The actions of the machine -/

namespace Exec

theorem uniform_get : Uniform (get : Exec Machine) :=
  fun _ _ _ _ => .ok rfl

/-- A change of the machine that leaves the number of calls alone. -/
theorem uniform_modify {change : Machine → Machine}
    (kept : ∀ machine, (change machine).depth = machine.depth) :
    Uniform (modify change : Exec Unit) :=
  fun _ _ _ machine => .ok (kept machine)

theorem uniform_load (name : String) : Uniform (load name) := by
  intro less more agree machine
  simp only [load, agree.sources]
  cases Loader.load less.sources name machine.loaded with
  | ok c loaded => exact .ok rfl
  | error error loaded => exact .fatal rfl ⟨rfl, rfl⟩

theorem uniform_invoke (owner : LinkedClass) (index : Nat) (arguments : List Value) :
    Uniform (invoke owner index arguments) :=
  fun _ _ agree machine => agree.invoke owner index arguments machine

theorem uniform_modifyClass (c : LinkedClass) (change : ClassState → ClassState) :
    Uniform (modifyClass c change) :=
  uniform_modify fun _ => rfl

theorem uniform_classState (c : LinkedClass) : Uniform (classState c) :=
  uniform_get.bind fun _ => uniform_pure _

theorem uniform_setStatic (c : LinkedClass) (slot : Nat) (value : Value) :
    Uniform (setStatic c slot value) := by
  refine (uniform_classState c).bind fun state => ?_
  split
  · exact uniform_modifyClass c _
  · exact uniform_throw _

theorem uniform_allocate (object : HeapObject) : Uniform (allocate object) :=
  fun _ _ _ _ => .ok rfl

theorem uniform_newString (text : String) : Uniform (newString text) := by
  intro less more agree machine
  have made : newString text more machine =
      allocate ⟨more.stringClass, .text text⟩ more machine := rfl
  rw [made, agree.stringClass]
  exact uniform_allocate _ less more agree machine

theorem uniform_intern (text : String) : Uniform (intern text) := by
  refine uniform_get.bind fun machine => ?_
  split
  · exact uniform_pure _
  · refine (uniform_newString text).bind fun ref => ?_
    refine Uniform.bind ?_ fun _ => uniform_pure ref
    exact uniform_modify fun _ => rfl

theorem uniform_print (toErrors : Bool) (text : String) : Uniform (print toErrors text) := by
  refine uniform_modify fun machine => ?_
  cases toErrors <;> rfl

/-- Whatever interrupts an action, a change is made and the interruption goes on. -/
theorem uniform_andChange {α : Type} {action : Exec α} (inner : Uniform action)
    {change : Machine → Machine} (kept : ∀ machine, (change machine).depth = machine.depth) :
    Uniform (tryCatch action fun interruption => do
      modify change
      throw interruption) := by
  intro less more agree machine
  have agrees := inner less more agree machine
  simp only [tryCatch, tryCatchThe, MonadExceptOf.tryCatch, EStateM.tryCatch]
  generalize action less machine = result at agrees ⊢
  generalize action more machine = result' at agrees ⊢
  cases agrees with
  | outOfFuel => exact .outOfFuel
  | ok met => exact .ok met
  | thrown met => exact .thrown ((kept _).trans met)
  | fatal variant met =>
    obtain ⟨rfl, same⟩ := met
    exact .fatal variant ⟨rfl, (kept _).trans same⟩

theorem uniform_initializing (c : LinkedClass) {action : Exec Unit} (inner : Uniform action) :
    Uniform (initializing c action) := by
  refine (uniform_classState c).bind fun state => ?_
  split
  · exact uniform_pure _
  · exact uniform_pure _
  · exact uniform_throw _
  · refine (uniform_modifyClass c _).bind fun _ => ?_
    refine Uniform.bind (uniform_andChange inner ?_) fun _ => uniform_modifyClass c _
    exact fun _ => rfl

theorem uniform_ensureInitialized (c : LinkedClass)
    (above : Uniform (ensureInitialized.ofSuperclass c.superclass))
    (within : Uniform (do
      assignConstants c c.staticFields
      runInitializer c : Exec Unit)) : Uniform (ensureInitialized c) := by
  obtain ⟨info, superclass, interfaces, element, table⟩ := c
  rw [ensureInitialized]
  exact uniform_initializing _ (above.bind fun _ => within)

end Exec

/-! ## The parts of instructions -/

namespace Step

theorem uniform_onMachine {α : Type} {action : Exec α} (inner : Uniform action) :
    Uniform (onMachine action) := by
  intro less more agree state
  have agrees := inner less more agree state.machine
  simp only [onMachine]
  generalize action less state.machine = result at agrees ⊢
  generalize action more state.machine = result' at agrees ⊢
  cases agrees with
  | outOfFuel => exact .outOfFuel
  | ok met => exact .ok met
  | thrown met => exact .thrown met
  | fatal variant met =>
    obtain ⟨rfl, same⟩ := met
    exact .fatal variant ⟨rfl, same⟩

theorem uniform_onFrame {α : Type} (operation : FrameM α) : Uniform (onFrame operation) := by
  intro less more agree state
  simp only [onFrame]
  cases operation state.frame with
  | ok value frame => exact .ok rfl
  | error error frame => exact .fatal rfl ⟨rfl, rfl⟩

theorem uniform_frame : Uniform frame :=
  fun _ _ _ _ => .ok rfl

theorem uniform_cursor : Uniform cursor :=
  fun _ _ _ _ => .ok rfl

theorem uniform_seek (cursor : Nat) : Uniform (seek cursor) :=
  fun _ _ _ _ => .ok rfl

theorem uniform_arrayLimit : Uniform (do return (← read).limits.arrayLength : Step Nat) := by
  intro less more agree state
  change Agrees _ (.ok less.limits.arrayLength state) (.ok more.limits.arrayLength state)
  rw [agree.limits]
  exact .ok rfl

theorem uniform_setLink (index : UInt16) (link : Linkage) : Uniform (setLink index link) :=
  uniform_frame.bind fun _ => uniform_onMachine (Exec.uniform_modifyClass _ _)

end Step

/-- Uniformity holds of whatever is put together from the simplest actions. -/
theorem uniform_compositional :
    Compositional (fun _ action => Uniform action) (fun _ action => Uniform action) where
  exec_pure := uniform_pure
  exec_bind := Uniform.bind
  exec_throw := uniform_throw
  exec_get := Exec.uniform_get
  exec_load := Exec.uniform_load
  exec_invoke := Exec.uniform_invoke
  exec_setStatic := Exec.uniform_setStatic
  exec_allocate := Exec.uniform_allocate
  exec_setSlot _ _ _ := Exec.uniform_modify fun _ => rfl
  exec_newString := Exec.uniform_newString
  exec_intern := Exec.uniform_intern
  exec_print := Exec.uniform_print
  exec_readClock := fun _ _ _ _ => .ok rfl
  exec_initializing := Exec.uniform_ensureInitialized
  step_pure := uniform_pure
  step_bind := Uniform.bind
  step_throw := uniform_throw
  step_onMachine := Step.uniform_onMachine
  step_onFrame operation := Step.uniform_onFrame operation
  step_frame := Step.uniform_frame
  step_cursor := Step.uniform_cursor
  step_seek := Step.uniform_seek
  step_arrayLimit := Step.uniform_arrayLimit
  step_setLink := Step.uniform_setLink

end JavaMachine
