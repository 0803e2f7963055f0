import JavaMachine.Proofs.Host.Composed
import JavaMachine.Proofs.Machine.Guarded

/-! # Access to classes by hosts

The actions with which a host reads and changes static fields, calls static methods and makes
instances are guarded by the initialization of the class. The arguments of a call are accepted and
converted before, the value of a field after. -/

namespace JavaMachine

theorem inert_preparatory : Preparatory (fun _ action => Inert action) where
  pure := inert_pure
  bind := Inert.bind
  throw := inert_throw
  tryCatch := Inert.tryCatch
  get := Exec.inert_get
  load := Exec.inert_load
  newString := Exec.inert_newString
  allocateElements := Exec.inert_allocateElements

/-- An access is as guarded after an inert choice as it is for each result of the choice. -/
theorem Guarded.chosen {σ α γ ρ τ : Type} [MachineState σ] {choose : Operation σ γ}
    {access : γ → Operation σ α} {find : γ → Operation σ ρ} {on : ρ → LinkedClass}
    {prepare : ρ → Operation σ τ} {act : ρ → τ → Operation σ α} (choice : Inert choose)
    (guarded : ∀ choice, Guarded (access choice) (find choice) on prepare act)
    (prepared : ∀ found, Inert (prepare found)) :
    Guarded (choose >>= access) (choose >>= find) on prepare act := by
  refine .of_exact ?_ (choice.bind fun choice => (guarded choice).find_inert) prepared
  rw [bind_assoc]
  exact bind_congr fun choice => (guarded choice).exact

/-! ## Static fields -/

namespace LinkedClass

/-- The static field of a class with a name, and the class that declares it. -/
def findStatic (c : LinkedClass) (name : String) : Exec (LinkedClass × Field) :=
  match c.staticField? name with
  | some found => return found
  | none => Exec.fail (.noSuchField c.name name)

theorem inert_findStatic (c : LinkedClass) (name : String) : Inert (c.findStatic name) := by
  unfold findStatic
  split
  · exact inert_pure _
  · exact inert_throw _

end LinkedClass

namespace Target

/-- The content of a static field as the host gets it. -/
def giveStatic (found : LinkedClass × Field) : Exec HostValue := do
  HostValue.give found.2.type (← Exec.getStatic found.1 found.2.slot)

/-- The value of a static field for a value of the host that the field accepts. -/
def valueFor (name : String) (value : HostValue) (found : LinkedClass × Field) : Exec Value := do
  if ← value.acceptedBy found.2.type then
    return Value.narrow found.2.type (← value.toValue found.2.type)
  else
    Exec.fail (.illegalArgument (.rejectedByField name found.2.type value.typeName))

/-- Changes a static field. -/
def storeStatic (found : LinkedClass × Field) (value : Value) : Exec Unit :=
  Exec.setStatic found.1 found.2.slot value

variable (c : LinkedClass) (name : String)

theorem guarded_getField :
    Guarded ((ofClass c).getField name) (c.findStatic name) Prod.fst (fun _ => pure ())
      fun found _ => giveStatic found := by
  refine .of_exact ?_ (c.inert_findStatic name) fun _ => inert_pure _
  unfold getField place ofClass LinkedClass.findStatic
  dsimp only
  cases c.staticField? name with
  | none => rfl
  | some found =>
    simp only [bind_assoc, pure_bind, Operation.ofExec_eq]
    rfl

theorem guarded_setField (value : HostValue) :
    Guarded ((ofClass c).setField name value) (c.findStatic name) Prod.fst (valueFor name value)
      storeStatic := by
  refine .of_exact ?_ (c.inert_findStatic name) fun found => ?_
  · unfold setField place ofClass LinkedClass.findStatic
    dsimp only
    cases c.staticField? name with
    | none => rfl
    | some found =>
      simp only [valueFor, bind_assoc, pure_bind, Operation.ofExec_eq]
      refine bind_congr fun _ => bind_congr fun accepted => ?_
      split
      · simp only [bind_assoc, pure_bind]
        rfl
      · rfl
  · refine (inert_preparatory.acceptedBy _ value).bind fun accepted => ?_
    split
    · exact (inert_preparatory.toValue _ value).bind fun _ => inert_pure _
    · exact inert_throw _

end Target

/-! ## Static methods and instances -/

/-- A call of a static method with the slot values of its arguments. -/
structure PreparedCall where
  candidate : Candidate
  arguments : List Value

namespace Candidate

/-- Converts the arguments of a call of a static method. -/
def prepared (arguments : List HostValue) (candidate : Candidate) : Exec PreparedCall := do
  return ⟨candidate, ← candidate.convert arguments⟩

theorem inert_prepared (arguments : List HostValue) (candidate : Candidate) :
    Inert (candidate.prepared arguments) :=
  (inert_preparatory.convertEach _ arguments).bind fun _ => inert_pure _

end Candidate

namespace PreparedCall

/-- The class that declares the method. -/
def owner (call : PreparedCall) : LinkedClass :=
  call.candidate.owner

/-- Runs the method. -/
def run (call : PreparedCall) : Exec HostValue := do
  let result ← Exec.invoke call.owner call.candidate.index (Value.toSlots call.arguments)
  call.candidate.giveResult result

end PreparedCall

theorem Candidate.guarded_call (candidate : Candidate) (arguments : List HostValue) :
    Guarded (candidate.call none arguments) (candidate.prepared arguments) PreparedCall.owner
      (fun _ => pure ()) fun call _ => call.run := by
  refine .of_exact ?_ (candidate.inert_prepared arguments) fun _ => inert_pure _
  unfold Candidate.call Candidate.prepared
  simp only [bind_assoc, pure_bind, Operation.ofExec_eq]
  rfl

namespace Target

variable (c : LinkedClass) (name : String) (arguments : List HostValue)

/-- The static method of a name that takes some arguments, ready to be called with them. -/
def findCall : Exec PreparedCall := do
  let candidate ← Candidate.select c name ((ofClass c).candidates name) arguments
  candidate.prepared arguments

theorem guarded_call :
    Guarded ((ofClass c).call name arguments) (findCall c name arguments) PreparedCall.owner
      (fun _ => pure ()) fun call _ => call.run :=
  .chosen (inert_preparatory.select _ _ _ _) (fun candidate => candidate.guarded_call arguments)
    fun _ => inert_pure _

/-- The static method with a name and a descriptor, which must take some arguments. -/
def chooseExactly (descriptor : String) : Exec Candidate := do
  match ((ofClass c).candidates name).find? (·.method.descriptorText == descriptor) with
  | none => Exec.fail (.noSuchMethod c.name (methodKey name descriptor))
  | some candidate =>
    if ← candidate.takes arguments then return candidate
    else
      Exec.fail (.illegalArgument
        (.rejectedByMethod name descriptor (HostValue.typeNames arguments)))

theorem inert_chooseExactly (descriptor : String) :
    Inert (chooseExactly c name arguments descriptor) := by
  unfold chooseExactly
  split
  · exact inert_throw _
  · refine (inert_preparatory.takes _ arguments).bind fun taken => ?_
    split
    · exact inert_pure _
    · exact inert_throw _

/-- The static method with a name and a descriptor, ready to be called with some arguments. -/
def findCallExactly (descriptor : String) : Exec PreparedCall := do
  let candidate ← chooseExactly c name arguments descriptor
  candidate.prepared arguments

theorem callExactly_eq (descriptor : String) :
    (ofClass c).callExactly name descriptor arguments =
      chooseExactly c name arguments descriptor >>= fun candidate =>
        candidate.call none arguments := by
  unfold callExactly chooseExactly
  cases ((ofClass c).candidates name).find? (·.method.descriptorText == descriptor) with
  | none => rfl
  | some candidate =>
    simp only [bind_assoc]
    refine bind_congr fun taken => ?_
    split
    · rfl
    · rfl

theorem guarded_callExactly (descriptor : String) :
    Guarded ((ofClass c).callExactly name descriptor arguments)
      (findCallExactly c name arguments descriptor) PreparedCall.owner
      (fun _ => pure ()) fun call _ => call.run := by
  rw [callExactly_eq]
  exact .chosen (inert_chooseExactly c name arguments descriptor)
    (fun candidate => candidate.guarded_call arguments) fun _ => inert_pure _

end Target

namespace LinkedClass

variable (c : LinkedClass) (arguments : List HostValue)

/-- The constructor that takes some arguments, of a class that can have instances. -/
def findConstructor : Exec Candidate := do
  if c.isAbstract || c.isInterface || c.isArray then
    Exec.fail (.illegalArgument (.notInstantiable (ClassName.dotted c.name)))
  let constructors := Candidate.declaredIn c fun method => method.name == MemberName.constructor
  Candidate.select c MemberName.constructor constructors arguments

/-- Makes an instance and runs a constructor. -/
def constructWith (candidate : Candidate) : Exec Ref := do
  let ref ← Exec.allocate (.ofClass c)
  let converted ← candidate.convert arguments
  let _ ← Exec.invoke c candidate.index (Value.toSlots (.reference (some ref) :: converted))
  return ref

theorem inert_findConstructor : Inert (c.findConstructor arguments) := by
  unfold findConstructor
  dsimp only
  split
  · exact Inert.bind (inert_throw _) fun _ => inert_preparatory.select _ _ _ _
  · exact inert_preparatory.select _ _ _ _

theorem guarded_construct :
    Guarded (c.construct arguments) (c.findConstructor arguments) (fun _ => c) (fun _ => pure ())
      fun candidate _ => c.constructWith arguments candidate := by
  refine .of_exact ?_ (c.inert_findConstructor arguments) fun _ => inert_pure _
  unfold construct findConstructor
  dsimp only
  split
  · rfl
  · simp only [pure_bind, Operation.ofExec_eq]
    rfl

end LinkedClass

end JavaMachine
