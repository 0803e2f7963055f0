import JavaMachine.Host.Member
import JavaMachine.Machine.Execution
import JavaMachine.Native.System
import JavaMachine.Proofs.Class.Subtyping
import JavaMachine.Proofs.Instruction.Dispatch

/-! # Where subtyping decides

The subtype relation of the loaded classes is a preorder that the check of assignability decides
(`Loader.Reachable.decidesSubtypes`). Wherever it matters whether an object is of a class it is this
relation that makes the difference: whether a cast or a test succeeds, whether an element is stored
or copied, whether a handler takes a throwable, and whether a host may use an object as an instance
of a class or pass it where a type is declared (`DecidesObjects`). -/

namespace JavaMachine

open Loader (Defines Reachable)
open LinkedClass (Subtype)
open Operation (bind_of_ok)
open Execution (findHandler)

/-! ## Decisions -/

/-- One thing comes out if a class is a subtype of another one, and another thing otherwise. -/
structure Decides {ρ : Type} (sources : List ClassSource) (c target : LinkedClass)
    (result yes no : ρ) : Prop where
  yes (below : c.Subtype (Defines sources) target) : result = yes
  no (notBelow : ¬ c.Subtype (Defines sources) target) : result = no

/-- Wherever the machine asks whether an object is of a class, it goes by the subtype relation of the
classes that the sources define. -/
structure DecidesObjects (sources : List ClassSource) : Prop where
  /-- A test pushes whether the object is of the class. -/
  instanceOf {services : Services} {state between : StepState} {frame : Frame} {ref : Ref}
    {target : LinkedClass}
    (fetched : (Step.readShort >>= Step.classAt) services state = .ok target between)
    (taken : Frame.popReference between.frame = .ok (some ref) frame)
    (defined : Defines sources (between.machine.heap.get ref).type)
    (targetDefined : Defines sources target) :
    Decides sources (between.machine.heap.get ref).type target (Step.instanceOf services state)
      (Step.onFrame (Frame.push (.ofBool true)) services { between with frame })
      (Step.onFrame (Frame.push (.ofBool false)) services { between with frame })
  /-- A cast leaves the object on the stack, or throws. -/
  checkCast {services : Services} {state between : StepState} {frame : Frame} {ref : Ref}
    {target : LinkedClass}
    (fetched : (Step.readShort >>= Step.classAt) services state = .ok target between)
    (taken : Frame.popReference between.frame = .ok (some ref) frame)
    (defined : Defines sources (between.machine.heap.get ref).type)
    (targetDefined : Defines sources target) :
    Decides sources (between.machine.heap.get ref).type target (Step.checkCast services state)
      (Step.onFrame (Frame.push (.reference (some ref))) services { between with frame })
      (Step.onMachine (Exec.throwNew ClassName.classCastException
        (some ("class " ++ ClassName.dotted (between.machine.heap.get ref).className ++
          " cannot be cast to class " ++ ClassName.dotted target.name)))
        services { between with frame })
  /-- An object is stored as an element, or something is thrown. -/
  checkElement {services : Services} {state : StepState} {array : HeapObject} {ref : Ref}
    {target : LinkedClass} (contained : array.type.element = some target)
    (defined : Defines sources (state.machine.heap.get ref).type)
    (targetDefined : Defines sources target) :
    Decides sources (state.machine.heap.get ref).type target
      (Step.checkElement array (.reference (some ref)) services state) (.ok () state)
      (Step.onMachine (Exec.throwNew ClassName.arrayStoreException
        (some (ClassName.dotted (state.machine.heap.get ref).className))) services state)
  /-- An object is copied as an element, or something is thrown. -/
  checkAssignable {services : Services} {machine : Machine} {array target : LinkedClass} {ref : Ref}
    (contained : array.element = some target)
    (defined : Defines sources (machine.heap.get ref).type)
    (targetDefined : Defines sources target) :
    Decides sources (machine.heap.get ref).type target
      (Native.SystemMethods.checkAssignable array (.reference (some ref)) services machine)
      (.ok () machine)
      (Exec.throwNew ClassName.arrayStoreException
        (some ("arraycopy: element type " ++ ClassName.dotted (machine.heap.get ref).className ++
          " cannot be stored into " ++ ClassName.dotted array.name))
        services machine)
  /-- A handler of a type takes a throwable, or the next one is asked. -/
  findHandler {services : Services} {machine after : Machine} {pc : Nat} {handler : Handler}
    {rest : List Handler} {name : String} {thrown caught : LinkedClass}
    (covers : handler.covers pc = true) (typed : handler.catchType = some name)
    (loaded : Exec.load name services machine = .ok caught after)
    (defined : Defines sources thrown) (caughtDefined : Defines sources caught) :
    Decides sources thrown caught (findHandler pc thrown (handler :: rest) services machine)
      (.ok (some handler.target) after) (findHandler pc thrown rest services after)
  /-- A host may use an object as an instance of a class, or gets an error. -/
  ofInstance {services : Services} {machine : Machine} {target : LinkedClass} {ref : Ref}
    (defined : Defines sources (machine.heap.get ref).type)
    (targetDefined : Defines sources target) :
    Decides sources (machine.heap.get ref).type target
      (Target.ofInstance target ref services machine) (.ok ⟨target, some ref⟩ machine)
      (.error (.fatal (.illegalArgument (.notInstance
        (ClassName.dotted (machine.heap.get ref).className) (ClassName.dotted target.name))))
        machine)
  /-- A host may pass an object where a type is declared, or not. -/
  objectAccepted {services : Services} {machine after : Machine} {type : FieldType} {ref : Ref}
    {target : LinkedClass} (loaded : Exec.load type.className services machine = .ok target after)
    (defined : Defines sources (machine.heap.get ref).type)
    (targetDefined : Defines sources target) :
    Decides sources (machine.heap.get ref).type target
      (HostValue.objectAccepted ref type services machine) (.ok true after) (.ok false after)

/-- The subtypes among some loaded classes. -/
abbrev LoadedClasses.Subtype (loaded : LoadedClasses) : LinkedClass → LinkedClass → Prop :=
  LinkedClass.Subtype fun c => loaded.lookup c.name = some c

/-- The check of assignability decides the subtypes of the loaded classes, which are those of all
classes that the sources define. -/
structure Loader.DecidesSubtypes (sources : List ClassSource) (loaded : LoadedClasses) : Prop where
  iff_loaded {c d : LinkedClass} (found : loaded.lookup c.name = some c)
    (targetFound : loaded.lookup d.name = some d) :
    c.isAssignableTo d = true ↔ loaded.Subtype c d
  iff_defined {c d : LinkedClass} (found : loaded.lookup c.name = some c)
    (targetFound : loaded.lookup d.name = some d) :
    c.isAssignableTo d = true ↔ c.Subtype (Defines sources) d
  reflexive {c : LinkedClass} (found : loaded.lookup c.name = some c) : c.isAssignableTo c = true
  transitive {c d e : LinkedClass} (found : loaded.lookup c.name = some c)
    (middleFound : loaded.lookup d.name = some d) (targetFound : loaded.lookup e.name = some e)
    (near : c.isAssignableTo d = true) (far : d.isAssignableTo e = true) :
    c.isAssignableTo e = true
  objects : DecidesObjects sources

/-! ## Asking for a class -/

/-- What is thrown is thrown, whatever was to come of it. -/
theorem Exec.throwNew_error (className : String) (detail : Option String) (services : Services)
    (machine : Machine) :
    ∃ interruption after, ∀ α : Type,
      (throwNew className detail : Exec α) services machine = .error interruption after := by
  cases made : newThrowable className detail services machine with
  | ok exception after => exact ⟨.thrown exception, after, fun _ => bind_of_ok made⟩
  | error interruption after =>
    exact ⟨interruption, after, fun _ => Operation.bind_of_error made⟩

theorem Step.throwNew_error (className : String) (detail : Option String) (services : Services)
    (state : StepState) :
    ∃ interruption after, ∀ α : Type,
      onMachine (Exec.throwNew className detail : Exec α) services state =
        .error interruption after := by
  obtain ⟨interruption, after, thrown⟩ :=
    Exec.throwNew_error className detail services state.machine
  exact ⟨interruption, _, fun α => by rw [onMachine, thrown α]⟩

section Objects

variable {sources : List ClassSource} {services : Services}

namespace Step

variable {state between : StepState} {frame : Frame} {ref : Ref} {target : LinkedClass}

theorem instanceOf_eq (fetched : (readShort >>= classAt) services state = .ok target between)
    (taken : Frame.popReference between.frame = .ok (some ref) frame) :
    instanceOf services state =
      onFrame (Frame.push (.ofBool ((between.machine.heap.get ref).type.isAssignableTo target)))
        services { between with frame } := by
  unfold instanceOf
  rw [← bind_assoc, bind_of_ok fetched, bind_of_ok (onFrame_of_ok taken)]
  rfl

theorem checkCast_eq (fetched : (readShort >>= classAt) services state = .ok target between)
    (taken : Frame.popReference between.frame = .ok (some ref) frame) :
    checkCast services state =
      if (between.machine.heap.get ref).type.isAssignableTo target then
        onFrame (Frame.push (.reference (some ref))) services { between with frame }
      else onMachine (Exec.throwNew ClassName.classCastException
        (some ("class " ++ ClassName.dotted (between.machine.heap.get ref).className ++
          " cannot be cast to class " ++ ClassName.dotted target.name)))
        services { between with frame } := by
  have looked : (liftM (Exec.object ref) : Step HeapObject) services { between with frame } =
      .ok (between.machine.heap.get ref) { between with frame } := rfl
  unfold checkCast
  rw [← bind_assoc, bind_of_ok fetched, bind_of_ok (onFrame_of_ok taken)]
  dsimp only
  rw [bind_of_ok looked]
  cases (between.machine.heap.get ref).type.isAssignableTo target with
  | true => rfl
  | false =>
    obtain ⟨interruption, after, thrown⟩ := throwNew_error ClassName.classCastException
      (some ("class " ++ ClassName.dotted (between.machine.heap.get ref).className ++
          " cannot be cast to class " ++ ClassName.dotted target.name))
      services { between with frame }
    exact (Operation.bind_of_error (thrown PUnit)).trans (thrown Unit).symm

theorem checkElement_eq {array : HeapObject} (contained : array.type.element = some target) :
    checkElement array (.reference (some ref)) services state =
      if (state.machine.heap.get ref).type.isAssignableTo target then .ok () state
      else onMachine (Exec.throwNew ClassName.arrayStoreException
        (some (ClassName.dotted (state.machine.heap.get ref).className))) services state := by
  have looked : (liftM (Exec.object ref) : Step HeapObject) services state =
      .ok (state.machine.heap.get ref) state := rfl
  unfold checkElement
  rw [contained]
  dsimp only
  rw [bind_of_ok looked]
  cases (state.machine.heap.get ref).type.isAssignableTo target <;> rfl

end Step

variable {machine after : Machine} {ref : Ref} {target : LinkedClass}

theorem Native.SystemMethods.checkAssignable_eq {array : LinkedClass}
    (contained : array.element = some target) :
    checkAssignable array (.reference (some ref)) services machine =
      if (machine.heap.get ref).type.isAssignableTo target then .ok () machine
      else Exec.throwNew ClassName.arrayStoreException
        (some ("arraycopy: element type " ++ ClassName.dotted (machine.heap.get ref).className ++
          " cannot be stored into " ++ ClassName.dotted array.name))
        services machine := by
  have looked : Exec.object ref services machine = .ok (machine.heap.get ref) machine := rfl
  unfold checkAssignable
  rw [contained]
  dsimp only
  rw [bind_of_ok looked]
  cases (machine.heap.get ref).type.isAssignableTo target <;> rfl

theorem Execution.findHandler_eq {pc : Nat} {handler : Handler} {rest : List Handler}
    {name : String} {thrown caught : LinkedClass} (covers : handler.covers pc = true)
    (typed : handler.catchType = some name)
    (loaded : Exec.load name services machine = .ok caught after) :
    findHandler pc thrown (handler :: rest) services machine =
      if thrown.isAssignableTo caught then .ok (some handler.target) after
      else findHandler pc thrown rest services after := by
  have covered : ¬ (!handler.covers pc) = true := by
    rw [covers]
    decide
  rw [findHandler, if_neg covered, typed]
  dsimp only
  rw [bind_of_ok loaded]
  split <;> rfl

theorem Target.ofInstance_eq :
    ofInstance target ref services machine =
      if (machine.heap.get ref).type.isAssignableTo target then .ok ⟨target, some ref⟩ machine
      else .error (.fatal (.illegalArgument (.notInstance
        (ClassName.dotted (machine.heap.get ref).className) (ClassName.dotted target.name))))
        machine := by
  have looked : Exec.object ref services machine = .ok (machine.heap.get ref) machine := rfl
  unfold ofInstance
  rw [bind_of_ok looked]
  split <;> rfl

theorem HostValue.objectAccepted_eq {type : FieldType}
    (loaded : Exec.load type.className services machine = .ok target after) :
    objectAccepted ref type services machine =
      .ok ((machine.heap.get ref).type.isAssignableTo target) after := by
  have looked : Exec.object ref services machine = .ok (machine.heap.get ref) machine := rfl
  have tried : (tryCatch (some <$> Exec.load type.className) fun _ => pure none :
      Exec (Option LinkedClass)) services machine = .ok (some target) after := by
    simp only [tryCatch, tryCatchThe, MonadExceptOf.tryCatch, EStateM.tryCatch, Functor.map,
      EStateM.map, loaded]
  unfold objectAccepted
  rw [bind_of_ok looked]
  exact bind_of_ok tried

variable (rootExtensible : ∀ root, Defines sources root → root.name = ClassName.object →
  root.isInterface = false ∧ root.flags.isFinal = false)

include rootExtensible

/-- What goes by the check of assignability goes by the subtype relation. -/
theorem decides_of_ite {ρ : Type} {c target : LinkedClass} {result yes no : ρ}
    (defined : Defines sources c) (targetDefined : Defines sources target)
    (goes : result = if c.isAssignableTo target then yes else no) :
    Decides sources c target result yes no := by
  have decides := Loader.isAssignableTo_iff_subtype rootExtensible (fun _ => id)
    (fun _ _ inside links => inside.linksTo_defined links) defined targetDefined
  constructor
  · intro below
    rw [goes, if_pos (decides.mpr below)]
  · intro notBelow
    rw [goes, if_neg fun assignable => notBelow (decides.mp assignable)]

/-- **All questions for the class of an object are decided by subtyping.** -/
theorem decidesObjects : DecidesObjects sources where
  instanceOf {_ _ between _ ref target} fetched taken defined targetDefined := by
    refine decides_of_ite rootExtensible defined targetDefined ?_
    rw [Step.instanceOf_eq fetched taken]
    cases (between.machine.heap.get ref).type.isAssignableTo target <;> rfl
  checkCast fetched taken defined targetDefined :=
    decides_of_ite rootExtensible defined targetDefined (Step.checkCast_eq fetched taken)
  checkElement contained defined targetDefined :=
    decides_of_ite rootExtensible defined targetDefined (Step.checkElement_eq contained)
  checkAssignable contained defined targetDefined :=
    decides_of_ite rootExtensible defined targetDefined
      (Native.SystemMethods.checkAssignable_eq contained)
  findHandler covers typed loaded defined caughtDefined :=
    decides_of_ite rootExtensible defined caughtDefined
      (Execution.findHandler_eq covers typed loaded)
  ofInstance defined targetDefined :=
    decides_of_ite rootExtensible defined targetDefined Target.ofInstance_eq
  objectAccepted {_ machine _ _ ref target} loaded defined targetDefined := by
    refine decides_of_ite rootExtensible defined targetDefined ?_
    rw [HostValue.objectAccepted_eq loaded]
    cases (machine.heap.get ref).type.isAssignableTo target <;> rfl

end Objects

/-! ## Loaded classes -/

namespace Loader

variable {builtin : ClassSource} {rest : List ClassSource} {loaded : LoadedClasses}

/-- **Subtyping is decided among the loaded classes, and everywhere by the same check.** -/
theorem Reachable.decidesSubtypes (built : Builtin.source = .ok builtin)
    (reachable : Reachable (builtin :: rest) loaded) :
    DecidesSubtypes (builtin :: rest) loaded := by
  have sound := reachable.sound
  have rootExtensible (root : LinkedClass) (defined : Defines (builtin :: rest) root)
      (named : root.name = ClassName.object) := defined.extensible_root built named
  have defines (c : LinkedClass) (found : loaded.lookup c.name = some c) :
      Defines (builtin :: rest) c := (sound _ _ found).2.1
  have decides {c d : LinkedClass} (found : loaded.lookup c.name = some c)
      (targetFound : loaded.lookup d.name = some d) :
      c.isAssignableTo d = true ↔ loaded.Subtype c d :=
    isAssignableTo_iff_subtype rootExtensible defines
      (fun _ _ found links => (sound _ _ found).2.2 _ links) found targetFound
  exact {
    iff_loaded := decides
    iff_defined := fun found targetFound =>
      isAssignableTo_iff_subtype rootExtensible (fun _ => id)
        (fun _ _ inside links => inside.linksTo_defined links) (defines _ found)
        (defines _ targetFound)
    reflexive := fun found => (decides found found).mpr (.refl found)
    transitive := fun found middleFound targetFound near far =>
      (decides found targetFound).mpr
        (.trans ((decides found middleFound).mp near) ((decides middleFound targetFound).mp far))
    objects := decidesObjects rootExtensible }

theorem decidesSubtypes_strings :
    Builtin.source = .ok builtinClasses ∧
      Reachable [builtinClasses] (stringsOf builtinClasses) ∧
      (stringsOf builtinClasses).map Prod.fst =
        ["[Ljava/lang/String;", ClassName.string, ClassName.object] ∧
      DecidesSubtypes [builtinClasses] (stringsOf builtinClasses) :=
  ⟨source_eq_builtinClasses, reachable_stringsOf builtinClasses, names_stringsOf_builtinClasses,
    (reachable_stringsOf builtinClasses).decidesSubtypes source_eq_builtinClasses⟩

end Loader

end JavaMachine
