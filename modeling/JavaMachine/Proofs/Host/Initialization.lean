import JavaMachine.Proofs.Class.Coherence
import JavaMachine.Proofs.Execution.Charted
import JavaMachine.Proofs.Host.Access
import JavaMachine.Proofs.Instruction.Access

/-! # Initialization in sessions

A run of a session performs actions one after the other, whatever they end with. Over the whole run
a class is initialized at most once, and in order: it is untouched, then its initializer runs, then
it is done or has failed for good. Its own part starts only when its superclass is done or being
initialized around it. Whatever uses a class is guarded by its initialization
(`Session.Run.initialization`). -/

namespace JavaMachine

open InitEvent

/-! ## Runs -/

/-- The machine that the next action of a session finds: no calls are in progress. -/
def Session.ready (session : Session) : Machine :=
  { session.machine with depth := 0 }

/-- What a session that was started with some options has become after some actions, and what these
did to the initialization of classes. -/
inductive Session.Run (options : Options) : Session → List InitEvent → Prop where
  | started {session : Session} (start : Session.start options = .ok session) :
      Run options session []
  | performed {session : Session} {events later : List InitEvent} {α : Type} {action : Exec α}
      (run : Run options session events) (composed : action.Composed)
      (course : Course session.setup session.fuel [] action session.ready later) :
      Run options (session.perform action).2 (events ++ later)

section Perform

variable {α : Type} {options : Options} {session : Session} {events : List InitEvent}
  {action : Exec α}

theorem Session.machine_perform (session : Session) (action : Exec α) :
    (session.perform action).2.machine =
      endState (action (session.setup.services session.fuel) session.ready) := by
  obtain ⟨setup, fuel, machine⟩ := session
  unfold Session.perform Session.ready
  dsimp only
  cases action (setup.services fuel) { machine with depth := 0 } <;> rfl

theorem Session.setup_perform (session : Session) (action : Exec α) :
    (session.perform action).2.setup = session.setup := by
  obtain ⟨setup, fuel, machine⟩ := session
  unfold Session.perform
  dsimp only
  cases action (setup.services fuel) { machine with depth := 0 } <;> rfl

theorem Session.parts_of_start (start : Session.start options = .ok session) :
    session.setup.natives = options.natives ++ Native.table ∧ session.machine.classes = [] := by
  unfold Session.start at start
  rw [Except.bind_eq_ok_iff] at start
  obtain ⟨builtin, built, start⟩ := start
  dsimp only at start
  split at start
  · cases start
  · cases start
    exact ⟨rfl, rfl⟩

end Perform

namespace Session.Run

variable {options : Options} {session : Session} {events : List InitEvent}

theorem natives_eq (run : Run options session events) :
    session.setup.natives = options.natives ++ Native.table := by
  induction run with
  | started start => exact (parts_of_start start).1
  | performed run composed course ih =>
    rw [setup_perform]
    exact ih

/-- Over a run a class takes no step, or those of one initialization. -/
theorem steps (run : Run options session events) (name : String) :
    Steps (.initial name) (taken name events) (session.machine.phases name) := by
  induction run with
  | started start =>
    unfold Machine.phases
    rw [(parts_of_start start).2]
    exact .none
  | performed run composed course ih =>
    rw [taken_append, machine_perform]
    exact ih.append course.steps

/-- Between the actions of a run no initializer is running. -/
theorem covers (run : Run options session events) : Covers [] session.machine.phases := by
  have settled : Settled InitPhase.initial session.machine.phases :=
    fun name => ⟨_, run.steps name⟩
  refine settled.covers fun name running => ?_
  unfold InitPhase.initial at running
  split at running
  · cases running
  · cases running

/-- The superclass of a class that starts is done, or being initialized around it. -/
theorem superclassReady (run : Run options session events) {c s : LinkedClass}
    {around : List String} {phases : Phases} (member : .started c around phases ∈ events)
    (extended : c.superclass = some s) (different : s.name ≠ c.name) :
    phases s.name = .done ∨ phases s.name = .running ∧ s.name ∈ around := by
  induction run with
  | started start => cases member
  | performed run composed course ih =>
    rcases List.mem_append.mp member with member | member
    · exact ih member
    · exact course.superclassReady run.covers member extended different

/-- **Whatever a session performs has a course**, so that a run can always go on. -/
theorem goesOn {α : Type} {action : Exec α}
    (natives : Compositional.OfTable (fun _ action => action.Composed) options.natives)
    (run : Run options session events) (composed : action.Composed) :
    ∃ later, Run options (session.perform action).2 (events ++ later) := by
  have calls (fuel : Nat) (owner : LinkedClass) (index : Nat) (arguments : List Value) :
      Charted session.setup fuel (Exec.invoke owner index arguments) := by
    refine Execution.charted_calls (fun fuel calls => ?_) fuel owner index arguments
    have closed := charted_catching calls
    rw [run.natives_eq]
    refine Compositional.ofTable_append.mpr ⟨fun entry member call => ?_, closed.native_table⟩
    exact natives entry member call _ _ closed
  obtain ⟨later, course⟩ :=
    composed _ _ (charted_catching (calls session.fuel)) [] session.ready
  exact ⟨later, .performed run composed course⟩

end Session.Run

theorem LinkedClass.superclass_name_ne {sources : List ClassSource} {c s : LinkedClass}
    (defined : Loader.Defines sources c) (extended : c.superclass = some s) :
    s.name ≠ c.name := by
  intro same
  have needs := defined.needs_of_linksTo (.superclass extended)
  rw [same] at needs
  exact defined.not_needs_itself (.single needs)

/-! ## All accesses -/

/-- Whatever uses the static part of a class or makes an instance of it is guarded. -/
structure AllGuarded : Prop where
  getStatic : Guarded Step.getStatic Step.findStaticPlace Step.StaticPlace.owner (fun _ => pure ())
    fun place _ => Step.pushStatic place
  putStatic : Guarded Step.putStatic Step.findStaticPlace Step.StaticPlace.owner Step.popStatic
    Step.storeStatic
  newObject : Guarded Step.newObject Step.findInstantiable id (fun _ => pure ())
    fun c _ => Step.pushInstance c
  invokeStatic : Guarded Step.invokeStatic Step.findStaticTarget Step.StaticTarget.owner
    Step.popArguments fun target arguments => return .call target.owner target.position arguments
  getField (c : LinkedClass) (name : String) :
    Guarded ((Target.ofClass c).getField name) (c.findStatic name) Prod.fst (fun _ => pure ())
      fun found _ => Target.giveStatic found
  setField (c : LinkedClass) (name : String) (value : HostValue) :
    Guarded ((Target.ofClass c).setField name value) (c.findStatic name) Prod.fst
      (Target.valueFor name value) Target.storeStatic
  call (c : LinkedClass) (name : String) (arguments : List HostValue) :
    Guarded ((Target.ofClass c).call name arguments) (Target.findCall c name arguments)
      PreparedCall.owner (fun _ => pure ()) fun call _ => call.run
  callExactly (c : LinkedClass) (name descriptor : String) (arguments : List HostValue) :
    Guarded ((Target.ofClass c).callExactly name descriptor arguments)
      (Target.findCallExactly c name arguments descriptor) PreparedCall.owner (fun _ => pure ())
      fun call _ => call.run
  construct (c : LinkedClass) (arguments : List HostValue) :
    Guarded (c.construct arguments) (c.findConstructor arguments) (fun _ => c) (fun _ => pure ())
      fun candidate _ => c.constructWith arguments candidate

theorem allGuarded : AllGuarded where
  getStatic := Step.guarded_getStatic
  putStatic := Step.guarded_putStatic
  newObject := Step.guarded_newObject
  invokeStatic := Step.guarded_invokeStatic
  getField := Target.guarded_getField
  setField := Target.guarded_setField
  call := Target.guarded_call
  callExactly c name descriptor arguments := Target.guarded_callExactly c name arguments descriptor
  construct := LinkedClass.guarded_construct

/-! ## Initialization in order -/

/-- What holds of the initialization of classes in a run of a session. -/
structure Session.InOrder (options : Options) (session : Session) (events : List InitEvent) :
    Prop where
  /-- Every class has taken no step, or those from untouched to running and then to its end. -/
  steps (name : String) : Steps (.initial name) (taken name events) (session.machine.phases name)
  /-- The initializer of each class was entered at most once. -/
  once : (entries events).Nodup
  /-- When a class started, its superclass was done or being initialized around it. -/
  superclassReady (c s : LinkedClass) (around : List String) (phases : Phases)
    (member : .started c around phases ∈ events) (extended : c.superclass = some s)
    (defined : Loader.Defines session.setup.sources c) :
    phases s.name = .done ∨ phases s.name = .running ∧ s.name ∈ around
  /-- The run goes on with whatever is performed next. -/
  goesOn {α : Type} (action : Exec α) (composed : action.Composed) :
    ∃ later, Session.Run options (session.perform action).2 (events ++ later)
  /-- Whatever the run does with a class is guarded by its initialization. -/
  guarded : AllGuarded

/-- **In every run of a session, classes are initialized once and in order, and guarded until they
are**, if the native methods of the host are composed of the actions that hosts can perform. -/
theorem Session.Run.inOrder {options : Options} {session : Session} {events : List InitEvent}
    (natives : Compositional.OfTable (fun _ action => action.Composed) options.natives)
    (run : Session.Run options session events) : Session.InOrder options session events where
  steps := run.steps
  once := nodup_entries run.steps
  superclassReady _ _ _ _ member extended defined :=
    run.superclassReady member extended (LinkedClass.superclass_name_ne defined extended)
  goesOn _ composed := run.goesOn natives composed
  guarded := allGuarded

/-! ## Shapes that cannot be made -/

/-- Shapes are abstract, and no host has the method that initializes them. Their maker tries to make
one all the same. -/
def shapeScripts : List ClassScript := [
  ⟨"Shape", some ClassName.object, [
    .flags ⟨0x0421⟩,
    .field Builtin.publicStatic "count" "I",
    .nativeMethod Builtin.staticOnly MemberName.staticInitializer "()V"]⟩,
  ⟨"Maker", some ClassName.object, [
    .method Builtin.publicStatic "make" "()V" 0 [
      .classUse .new "Shape",
      .plain Opcode.pop.byte,
      .plain Opcode.returnVoid.byte]]⟩]

def shapeOptions : Options where
  sources := match shapeScripts.mapM Builtin.fileOf with
    | .ok files => [.ofClasses files]
    | .error _ => []
  fuel := 8

/-- A session in which nothing has been done with shapes yet. -/
@[irreducible] def shapes : Session :=
  match Session.start shapeOptions with
  | .ok session => session
  | .error _ => ⟨⟨[], {}, default, []⟩, 0, {}⟩

/-- Reads the number of shapes. -/
def countShapes : Exec HostValue := do
  (Target.ofClass (← Session.load "Shape")).getField "count"

/-- Has a shape made. -/
def makeShape : Exec HostValue := do
  (Target.ofClass (← Session.load "Maker")).call "make" []

/-- The error of an action that has failed. -/
def refusal? {α : Type} : Except Error α → Option Error
  | .ok _ => none
  | .error error => some error

theorem eq_error_of_refusal {α : Type} {result : Except Error α} {error : Error}
    (refused : refusal? result = some error) : result = .error error := by
  cases result with
  | ok value => cases refused
  | error other => exact congrArg Except.error (Option.some.inj refused)

theorem shapes_facts :
    (Session.start shapeOptions).isOk = true ∧
      (shapes.perform countShapes).2.machine.phases "Shape" = .failed ∧
      refusal? ((shapes.perform countShapes).2.perform makeShape).1 =
        some (.virtualMachine (.instruction ⟨"Maker", "make"⟩ 0 (.instantiation "Shape"))) := by
  decide +kernel

theorem start_shapes : Session.start shapeOptions = .ok shapes := by
  have isOk := shapes_facts.1
  unfold shapes
  cases started : Session.start shapeOptions with
  | ok session => rfl
  | error error =>
    rw [started] at isOk
    cases isOk

theorem composed_countShapes : countShapes.Composed :=
  fun _ _ closed => closed.exec_bind (closed.host_load _) fun _ => closed.host_getField _ _

theorem natives_shapes :
    Compositional.OfTable (fun _ action => action.Composed) shapeOptions.natives := by
  intro entry member
  cases (member : entry ∈ [])

theorem run_shapes :
    ∃ events, Session.Run shapeOptions (shapes.perform countShapes).2 events :=
  (Session.Run.started start_shapes).goesOn natives_shapes composed_countShapes

theorem inOrder_shapes :
    ∃ events, Compositional.OfTable (fun _ action => action.Composed) shapeOptions.natives ∧
      Session.Run shapeOptions (shapes.perform countShapes).2 events ∧
      taken "Shape" events = [.running, .failed] ∧
      Session.InOrder shapeOptions (shapes.perform countShapes).2 events := by
  obtain ⟨events, run⟩ := run_shapes
  refine ⟨events, natives_shapes, run, ?_, run.inOrder natives_shapes⟩
  have untouched : InitPhase.initial "Shape" = .untouched := by decide +kernel
  have steps := run.steps "Shape"
  rw [shapes_facts.2.1, untouched] at steps
  generalize taken "Shape" events = phases at steps
  cases steps
  rfl

/-- **Whether a class can have instances is found out first**: the initialization of shapes has
failed, and an instruction that is to make one fails for another reason. -/
theorem makeShape_refused :
    ∃ events, Session.Run shapeOptions (shapes.perform countShapes).2 events ∧
      (shapes.perform countShapes).2.machine.phases "Shape" = .failed ∧
      ((shapes.perform countShapes).2.perform makeShape).1 =
        .error (.virtualMachine (.instruction ⟨"Maker", "make"⟩ 0 (.instantiation "Shape"))) := by
  obtain ⟨events, run⟩ := run_shapes
  exact ⟨events, run, shapes_facts.2.1, eq_error_of_refusal shapes_facts.2.2⟩

end JavaMachine
