import JavaMachine.Proofs.Execution.Arguments
import JavaMachine.Proofs.Host.Offered
import Mathlib

/-! # Calls of hosts

A host finds a method by its name, or by its name and its descriptor, or a constructor, and it gives
the arguments. They are converted to the types of the parameters of the method that is found. Which
method runs may depend on the class of the object that it is called on (`Candidate.Runs`). Its slots
are those of the object, if there is one, and of the converted arguments (`Target.Finds.passes`,
`LinkedClass.construct_passes`). -/

namespace JavaMachine

open Execution (Delivers delivers)
open Operation (bind_of_ok exists_of_bind_ok)
open Value (AreOf toSlots passed)

/-! ## Arguments that hosts pass -/

section Conversion

variable {services : Services} {machine between before after : Machine} {type : FieldType}
  {types : List FieldType} {host : HostValue} {arguments : List HostValue} {value : Value}
  {values : List Value}

/-- What was found acceptable is converted to a value of the type. -/
theorem HostValue.kind_of_toValue
    (accepted : host.acceptedBy type services machine = .ok true between)
    (converted : host.toValue type services before = .ok value after) :
    value.kind = .value type.kind := by
  have ofReference {target : Option Ref} (reference : type.isReference = true) :
      (Value.reference target).kind = .value type.kind :=
    (FieldType.holds_reference reference target).kind
  cases host with
  | null =>
    have reference : type.isReference = true := (EStateM.Result.ok.inj accepted).1
    cases converted
    exact ofReference reference
  | string text =>
    have listed := (EStateM.Result.ok.inj accepted).1
    have reference : type.isReference = true := by
      rcases Bool.or_eq_true_iff.mp listed with same | same
      · rw [of_decide_eq_true same, FieldType.isReference]
      · rw [of_decide_eq_true same, FieldType.isReference]
    obtain ⟨ref, made, -, ended⟩ := exists_of_bind_ok converted
    cases ended
    exact ofReference reference
  | array items =>
    have reference : type.isReference = true := by
      cases type <;> first | rfl | cases accepted
    obtain ⟨c, loaded, -, converted⟩ := exists_of_bind_ok converted
    obtain ⟨elements, filled, -, converted⟩ := exists_of_bind_ok converted
    obtain ⟨ref, made, -, ended⟩ := exists_of_bind_ok converted
    cases ended
    exact ofReference reference
  | object ref =>
    have reference : type.isReference = true := by
      cases type <;> first | rfl | cases accepted
    cases converted
    exact ofReference reference
  | _ =>
    have widens := (EStateM.Result.ok.inj accepted).1
    obtain ⟨number, found, holds⟩ := exists_numberValue widens
    unfold toValue at converted
    simp only [found] at converted
    cases converted
    exact holds.kind

namespace Candidate

variable {candidate : Candidate} {candidates : List Candidate}

theorem areOf_of_convertEach (same : types.length = arguments.length)
    (accepted : acceptsEach types arguments services machine = .ok true between)
    (converted : convertEach types arguments services before = .ok values after) :
    AreOf values types := by
  induction types generalizing arguments values machine before with
  | nil =>
    obtain rfl := List.eq_nil_of_length_eq_zero same.symm
    cases converted
    exact .nil
  | cons type types ih =>
    cases arguments with
    | nil => cases same
    | cons argument arguments =>
      obtain ⟨isFirst, step, acceptedFirst, accepted⟩ := exists_of_bind_ok accepted
      obtain ⟨first, ready, convertedFirst, converted⟩ := exists_of_bind_ok converted
      obtain ⟨rest, last, convertedRest, ended⟩ := exists_of_bind_ok converted
      cases ended
      cases isFirst with
      | false => cases accepted
      | true =>
        have kind := HostValue.kind_of_toValue acceptedFirst convertedFirst
        have rest := ih (Nat.succ.inj same) accepted convertedRest
        exact .cons ((Value.kind_narrow type first).trans kind) rest

/-- What a method takes is converted to values of the types of its parameters. -/
theorem areOf_of_convert (taken : candidate.takes arguments services machine = .ok true between)
    (converted : candidate.convert arguments services before = .ok values after) :
    AreOf values candidate.method.descriptor.parameters := by
  unfold takes at taken
  by_cases same : candidate.method.descriptor.parameters.length = arguments.length
  · simp only [same, ↓reduceIte] at taken
    exact areOf_of_convertEach same taken converted
  · simp only [same, ↓reduceIte] at taken
    cases taken

theorem taken_of_firstTaking
    (found : firstTaking arguments candidates services machine = .ok (some candidate) after) :
    candidate ∈ candidates ∧
      ∃ before between, candidate.takes arguments services before = .ok true between := by
  induction candidates generalizing machine with
  | nil => cases found
  | cons first rest ih =>
    obtain ⟨taken, between, tried, found⟩ := exists_of_bind_ok found
    cases taken with
    | true =>
      cases found
      exact ⟨List.mem_cons_self, machine, after, tried⟩
    | false =>
      obtain ⟨member, taken⟩ := ih found
      exact ⟨List.mem_cons_of_mem _ member, taken⟩

/-- What is selected is one of the candidates, and takes the arguments. -/
theorem taken_of_select {c : LinkedClass} {name : String}
    (selected : select c name candidates arguments services machine = .ok candidate after) :
    candidate ∈ candidates ∧
      ∃ before between, candidate.takes arguments services before = .ok true between := by
  unfold select at selected
  by_cases none : candidates.isEmpty = true
  · simp only [none, ↓reduceIte] at selected
    cases selected
  · simp only [none, Bool.false_eq_true, ↓reduceIte] at selected
    obtain ⟨found, between, tried, selected⟩ := exists_of_bind_ok selected
    cases found with
    | none => cases selected
    | some found =>
      cases selected
      exact taken_of_firstTaking tried

end Candidate

end Conversion

/-! ## The method that runs -/

/-- The class of an object has a method for a key. It has the descriptor that is called, and it is
not static. -/
structure Machine.Selects (machine : Machine) (ref : Ref) (key : String)
    (descriptor : MethodDescriptor) (owner : LinkedClass) (index : Nat) (method : Method) :
    Prop where
  found : (machine.heap.get ref).type.findMethod? key = some (owner, index)
  present : owner.method? index = some method
  same : method.descriptor = descriptor
  dynamic : method.isStatic = false

namespace Candidate

/-- The method that runs when one is called, on a receiver unless it is static, and what the machine
is then. -/
inductive Runs (services : Services) (machine : Machine) (called : Candidate) (key : String) :
    Option Ref → LinkedClass → Nat → Method → Machine → Prop where
  | static {after : Machine} (isStatic : called.method.isStatic = true)
      (initialized : Exec.ensureInitialized called.owner services machine = .ok () after) :
      Runs services machine called key none called.owner called.index called.method after
  | itself {ref : Ref} (dynamic : called.method.isStatic = false)
      (hidden : called.method.isPrivate = true) :
      Runs services machine called key (some ref) called.owner called.index called.method machine
  | selected {ref : Ref} {owner : LinkedClass} {index : Nat} {method : Method}
      (dynamic : called.method.isStatic = false) (inherited : called.method.isPrivate = false)
      (selects : machine.Selects ref key called.method.descriptor owner index method) :
      Runs services machine called key (some ref) owner index method machine

section Call

variable {services : Services} {machine between after : Machine} {called : Candidate}
  {key name : String} {receiver : Option Ref} {owner : LinkedClass} {index : Nat} {method : Method}
  {host : List HostValue} {arguments : List Value} {target : Target}

/-- Arguments for the method that is called arrive at the one that runs. -/
theorem Runs.delivers (present : called.owner.method? called.index = some called.method)
    (runs : called.Runs services machine key receiver owner index method after)
    (areOf : AreOf arguments called.method.descriptor.parameters) :
    Delivers owner index method receiver arguments (toSlots (passed receiver arguments)) := by
  cases runs with
  | static isStatic => exact Execution.delivers present areOf isStatic
  | itself dynamic => exact Execution.delivers present areOf dynamic
  | selected _ _ selects =>
    rw [← selects.same] at areOf
    exact Execution.delivers selects.present areOf selects.dynamic

/-- The slots of a call by the host are those of the converted arguments, behind the receiver. -/
theorem call_of_runs (converted : called.convert host services machine = .ok arguments between)
    (runs : called.Runs services between called.method.key receiver owner index method after) :
    called.call receiver host services machine =
      (Exec.invoke owner index (toSlots (passed receiver arguments)) >>= called.giveResult)
        services after := by
  unfold call
  rw [bind_of_ok converted]
  cases runs with
  | static isStatic initialized =>
    dsimp only
    rw [bind_of_ok initialized]
    rfl
  | itself dynamic hidden =>
    simp only [dispatch, hidden, ↓reduceIte, pure_bind]
    rfl
  | @selected ref _ _ _ dynamic inherited selects =>
    have chosen : called.dispatch ref services between = .ok (owner, index) between := by
      have held : Exec.object ref services between = .ok (between.heap.get ref) between := rfl
      simp only [dispatch, inherited, Bool.false_eq_true, ↓reduceIte]
      rw [bind_of_ok held, selects.found]
      rfl
    dsimp only
    rw [bind_of_ok chosen]
    rfl

end Call

end Candidate

/-- The method that the host calls by its name, or by its name and its descriptor: it takes the
arguments. -/
inductive Target.Finds (services : Services) (machine : Machine) (target : Target) (name : String)
    (arguments : List HostValue) : Exec HostValue → Candidate → Machine → Prop where
  | byName {called : Candidate} {after : Machine}
      (selected : Candidate.select target.type name (target.candidates name) arguments services
        machine = .ok called after) :
      Finds services machine target name arguments (target.call name arguments) called after
  | exactly {descriptor : String} {called : Candidate} {after : Machine}
      (found : (target.candidates name).find? (·.method.descriptorText == descriptor) = some called)
      (taken : called.takes arguments services machine = .ok true after) :
      Finds services machine target name arguments (target.callExactly name descriptor arguments)
        called after

section Find

variable {services : Services} {machine between ready after : Machine} {called : Candidate}
  {name : String} {owner : LinkedClass} {index : Nat} {method : Method} {target : Target}
  {arguments : List HostValue} {values : List Value} {action : Exec HostValue}

/-- The host calls one of the methods of the name, which takes the arguments. -/
theorem Target.Finds.member
    (finds : target.Finds services machine name arguments action called after) :
    called ∈ target.candidates name ∧
      ∃ before between, called.takes arguments services before = .ok true between := by
  cases finds with
  | byName selected => exact Candidate.taken_of_select selected
  | exactly found taken => exact ⟨List.mem_of_find?_eq_some found, machine, after, taken⟩

theorem Target.Finds.action_eq
    (finds : target.Finds services machine name arguments action called after) :
    action services machine = called.call target.receiver arguments services after := by
  cases finds with
  | byName selected => exact bind_of_ok selected
  | exactly found taken =>
    simp only [callExactly, found]
    exact bind_of_ok taken

/-- **The host passes the arguments that it gave**, converted to the types of the parameters. -/
theorem Target.Finds.passes
    (finds : target.Finds services machine name arguments action called between)
    (converted : called.convert arguments services between = .ok values ready)
    (runs : called.Runs services ready called.method.key target.receiver owner index method after) :
    action services machine =
        (Exec.invoke owner index (toSlots (passed target.receiver values)) >>= called.giveResult)
          services after ∧
      AreOf values called.method.descriptor.parameters ∧
      Delivers owner index method target.receiver values
        (toSlots (passed target.receiver values)) := by
  obtain ⟨member, _, _, taken⟩ := finds.member
  obtain ⟨c, -, declared⟩ := List.mem_flatMap.mp (Candidate.mem_of_distinct member)
  have present := (Candidate.present_of_mem declared).1
  have areOf := Candidate.areOf_of_convert taken converted
  rw [finds.action_eq, Candidate.call_of_runs converted runs]
  exact ⟨rfl, areOf, runs.delivers present areOf⟩

/-- The constructor of a class is one that it declares, and takes the arguments. -/
theorem LinkedClass.taken_of_findConstructor {c : LinkedClass}
    (found : c.findConstructor arguments services machine = .ok called after) :
    called ∈ Candidate.declaredIn c (fun method => method.name == MemberName.constructor) ∧
      ∃ before between, called.takes arguments services before = .ok true between := by
  unfold findConstructor at found
  by_cases refused : (c.isAbstract || c.isInterface || c.isArray) = true
  · simp only [refused, ↓reduceIte] at found
    cases found
  · simp only [refused, Bool.false_eq_true, ↓reduceIte] at found
    exact Candidate.taken_of_select found

/-- **A constructor gets the new object and the arguments** that the host gave. -/
theorem LinkedClass.construct_passes {c : LinkedClass} {made : Machine} {ref : Ref}
    (found : c.findConstructor arguments services machine = .ok called between)
    (initialized : Exec.ensureInitialized c services between = .ok () ready)
    (allocated : Exec.allocate (.ofClass c) services ready = .ok ref made)
    (converted : called.convert arguments services made = .ok values after)
    (dynamic : called.method.isStatic = false) :
    c.construct arguments services machine = (do
        let _ ← Exec.invoke c called.index (toSlots (passed (some ref) values))
        return ref) services after ∧
      AreOf values called.method.descriptor.parameters ∧
      Delivers c called.index called.method (some ref) values
        (toSlots (passed (some ref) values)) := by
  have makes : c.construct arguments services machine =
      c.constructWith arguments called services ready :=
    ((c.guarded_construct arguments).acts services machine between ready ready called () found
      (by rw [Operation.ofExec_eq]; exact initialized) rfl).1
  obtain ⟨member, _, _, taken⟩ := LinkedClass.taken_of_findConstructor found
  have present := (Candidate.present_of_mem member).1
  rw [Candidate.owner_of_mem member] at present
  have areOf := Candidate.areOf_of_convert taken converted
  refine ⟨?_, areOf, delivers present areOf dynamic⟩
  rw [makes, constructWith, bind_of_ok allocated, bind_of_ok converted]
  rfl

end Find

end JavaMachine
