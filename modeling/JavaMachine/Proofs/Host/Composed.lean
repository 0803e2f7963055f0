import JavaMachine.Host.Session
import JavaMachine.Proofs.Machine.Compositional
import JavaMachine.Proofs.Native.Compositional

/-! # What hosts perform

A host, and a native method of a host, can do what the machine does and besides deal with whatever
interrupts it. What they do is composed of the simplest actions: it has every property that these
have and that sequences and handlers inherit. All actions on classes, objects, methods and fields
that a session offers are composed. -/

namespace JavaMachine

/-! ## Looking

What a host gets for a slot value it gets by looking at objects. -/

/-- Properties of actions that hold of what hosts do to look at objects. -/
structure Looking (OfExec : ∀ α : Type, Exec α → Prop) : Prop where
  pure {α : Type} (value : α) : OfExec α (pure value)
  bind {α β : Type} {action : Exec α} {next : α → Exec β} (first : OfExec α action)
    (rest : ∀ value, OfExec β (next value)) : OfExec β (action >>= next)
  throw {α : Type} (interruption : Interruption) : OfExec α (throw interruption)
  get : OfExec Machine get

namespace Looking

variable {OfExec : ∀ α : Type, Exec α → Prop} (closed : Looking OfExec)

include closed

theorem object (ref : Ref) : OfExec _ (Exec.object ref) :=
  closed.bind closed.get fun _ => closed.pure _

theorem map {α β : Type} {action : Exec α} (f : α → β) (inner : OfExec _ action) :
    OfExec _ (f <$> action) := by
  rw [map_eq_pure_bind]
  exact closed.bind inner fun _ => closed.pure _

theorem mapM {α β : Type} {action : α → Exec β} (each : ∀ value, OfExec _ (action value))
    (values : List α) : OfExec _ (values.mapM action) := by
  induction values with
  | nil =>
    rw [List.mapM_nil]
    exact closed.pure _
  | cons first rest ih =>
    rw [List.mapM_cons]
    exact closed.bind (each first) fun _ => closed.bind ih fun _ => closed.pure _

theorem ofReference {give : HostValue.Giving} (given : ∀ type value, OfExec _ (give type value))
    (target : Option Ref) : OfExec _ (HostValue.ofReference give target) := by
  cases target with
  | none => exact closed.pure _
  | some ref =>
    refine closed.bind (closed.object ref) fun object => ?_
    split
    · exact closed.pure _
    · exact closed.bind (closed.mapM (given _) _) fun _ => closed.pure _
    · exact closed.pure _

theorem ofValue (fuel : Nat) (type : FieldType) (value : Value) :
    OfExec _ (HostValue.ofValue fuel type value) := by
  induction fuel generalizing type value with
  | zero => exact closed.throw _
  | succ fuel ih =>
    unfold HostValue.ofValue
    split
    all_goals first
      | exact closed.pure _
      | exact closed.ofReference ih _
      | exact closed.throw _

theorem give (type : FieldType) (value : Value) : OfExec _ (HostValue.give type value) :=
  closed.bind closed.get fun _ => closed.ofValue _ type value

theorem giveResult (candidate : Candidate) (result : Option Value) :
    OfExec _ (candidate.giveResult result) := by
  unfold Candidate.giveResult
  split
  · exact closed.pure _
  · exact closed.give _ _
  · exact closed.throw _

end Looking

/-! ## Preparations

Before a host has a method called or a field changed, it may look at objects, load classes and make
strings and arrays. -/

/-- Properties of actions that hold of what hosts do to prepare an access. -/
structure Preparatory (OfExec : ∀ α : Type, Exec α → Prop) : Prop extends Looking OfExec where
  tryCatch {α : Type} {action : Exec α} {handle : Interruption → Exec α}
    (first : OfExec α action) (rest : ∀ interruption, OfExec α (handle interruption)) :
    OfExec α (tryCatch action handle)
  load (name : String) : OfExec LinkedClass (Exec.load name)
  newString (text : String) : OfExec Ref (Exec.newString text)
  allocateElements (c : LinkedClass) (elements : Array Value) :
    OfExec Ref (Exec.allocateElements c elements)

namespace Preparatory

variable {OfExec : ∀ α : Type, Exec α → Prop} (closed : Preparatory OfExec)

include closed

theorem objectAccepted (ref : Ref) (type : FieldType) :
    OfExec _ (HostValue.objectAccepted ref type) := by
  refine closed.bind (closed.object ref) fun object => ?_
  refine closed.bind ?_ fun _ => closed.pure _
  exact closed.tryCatch (closed.map _ (closed.load _)) fun _ => closed.pure _

mutual

theorem acceptedBy (type : FieldType) (value : HostValue) :
    OfExec _ (value.acceptedBy type) := by
  cases value with
  | null => exact closed.pure _
  | string text => exact closed.pure _
  | array items =>
    unfold HostValue.acceptedBy
    split
    · exact allAccepted _ items
    · split
      · exact allAccepted _ items
      · exact closed.pure _
    · exact closed.pure _
  | object ref =>
    unfold HostValue.acceptedBy
    split
    · exact closed.objectAccepted ref type
    · exact closed.pure _
  | _ => exact closed.pure _

theorem allAccepted (type : FieldType) (items : List HostValue) :
    OfExec _ (HostValue.acceptedBy.allAccepted type items) := by
  cases items with
  | nil => exact closed.pure _
  | cons first rest =>
    refine closed.bind (acceptedBy type first) fun accepted => ?_
    split
    · exact allAccepted type rest
    · exact closed.pure _

end

mutual

theorem toValue (type : FieldType) (value : HostValue) : OfExec _ (value.toValue type) := by
  cases value with
  | null => exact closed.pure _
  | string text =>
    exact closed.bind (closed.newString text) fun _ => closed.pure _
  | array items =>
    refine closed.bind (closed.load _) fun c => ?_
    refine closed.bind (allToValues _ items) fun elements => ?_
    exact closed.bind (closed.allocateElements c _) fun _ => closed.pure _
  | object ref => exact closed.pure _
  | _ =>
    unfold HostValue.toValue
    split
    · exact closed.pure _
    · exact closed.throw _

theorem allToValues (type : FieldType) (items : List HostValue) :
    OfExec _ (HostValue.toValue.allToValues type items) := by
  cases items with
  | nil => exact closed.pure _
  | cons first rest =>
    refine closed.bind (toValue type first) fun _ => ?_
    exact closed.bind (allToValues type rest) fun _ => closed.pure _

end

theorem acceptsEach (types : List FieldType) (values : List HostValue) :
    OfExec _ (Candidate.acceptsEach types values) := by
  induction types generalizing values with
  | nil => exact closed.pure _
  | cons type types ih =>
    cases values with
    | nil => exact closed.pure _
    | cons value values =>
      refine closed.bind (closed.acceptedBy type value) fun accepted => ?_
      split
      · exact ih values
      · exact closed.pure _

theorem takes (candidate : Candidate) (arguments : List HostValue) :
    OfExec _ (candidate.takes arguments) := by
  unfold Candidate.takes
  dsimp only
  split
  · exact closed.acceptsEach _ _
  · exact closed.pure _

theorem firstTaking (arguments : List HostValue) (candidates : List Candidate) :
    OfExec _ (Candidate.firstTaking arguments candidates) := by
  induction candidates with
  | nil => exact closed.pure _
  | cons first rest ih =>
    refine closed.bind (closed.takes first arguments) fun taken => ?_
    split
    · exact closed.pure _
    · exact ih

theorem select (c : LinkedClass) (name : String) (candidates : List Candidate)
    (arguments : List HostValue) : OfExec _ (Candidate.select c name candidates arguments) := by
  unfold Candidate.select
  split
  · refine closed.bind (closed.throw _) fun _ => ?_
    refine closed.bind (closed.firstTaking arguments candidates) fun found => ?_
    split
    · exact closed.pure _
    · exact closed.throw _
  · refine closed.bind (closed.firstTaking arguments candidates) fun found => ?_
    split
    · exact closed.pure _
    · exact closed.throw _

theorem convertEach (types : List FieldType) (values : List HostValue) :
    OfExec _ (Candidate.convertEach types values) := by
  induction types generalizing values with
  | nil => exact closed.pure _
  | cons type types ih =>
    cases values with
    | nil => exact closed.pure _
    | cons value values =>
      refine closed.bind (closed.toValue type value) fun _ => ?_
      exact closed.bind (ih values) fun _ => closed.pure _

end Preparatory

/-! ## All actions of hosts -/

/-- Properties of actions that hold of the simplest ones, of sequences, and of actions with a
handler for what interrupts them. -/
structure Catching (OfExec : ∀ α : Type, Exec α → Prop) (OfStep : ∀ α : Type, Step α → Prop) : Prop
    extends Compositional OfExec OfStep where
  exec_tryCatch {α : Type} {action : Exec α} {handle : Interruption → Exec α}
    (first : OfExec α action) (rest : ∀ interruption, OfExec α (handle interruption)) :
    OfExec α (tryCatch action handle)

/-- An action that is put together from the simplest ones. -/
def Exec.Composed {α : Type} (action : Exec α) : Prop :=
  ∀ (OfExec : ∀ α : Type, Exec α → Prop) (OfStep : ∀ α : Type, Step α → Prop),
    Catching OfExec OfStep → OfExec α action

namespace Catching

variable {OfExec : ∀ α : Type, Exec α → Prop} {OfStep : ∀ α : Type, Step α → Prop}
  (closed : Catching OfExec OfStep)

include closed

theorem preparatory : Preparatory OfExec where
  pure := closed.exec_pure
  bind := closed.exec_bind
  throw := closed.exec_throw
  tryCatch := closed.exec_tryCatch
  get := closed.exec_get
  load := closed.exec_load
  newString := closed.exec_newString
  allocateElements := closed.exec_allocateElements

theorem exec_fail {α : Type} (error : Error) : OfExec α (Exec.fail error) :=
  closed.exec_throw (.fatal error)

theorem exec_ensureInitialized (c : LinkedClass) : OfExec _ (Exec.ensureInitialized c) :=
  closed.exec_of_shown (closed.informed.exec_ensureInitialized trivial)

theorem exec_getStatic (c : LinkedClass) (slot : Nat) : OfExec _ (Exec.getStatic c slot) :=
  closed.exec_of_shown (closed.informed.exec_getStatic c slot)

theorem exec_getField (ref : Ref) (slot : Nat) : OfExec _ (Exec.getField ref slot) :=
  closed.exec_of_shown (closed.informed.exec_getField ref slot)

/-- An action that goes on unless a check stops it. -/
theorem exec_check {α : Type} {failed : Prop} [Decidable failed] {stop : Exec PUnit}
    {rest : PUnit → Exec α} (stopped : OfExec _ stop) (passed : ∀ u, OfExec _ (rest u)) :
    OfExec α (if failed then stop >>= rest else rest ()) := by
  split
  · exact closed.exec_bind stopped passed
  · exact passed ()

theorem host_dispatch (candidate : Candidate) (receiver : Ref) :
    OfExec _ (candidate.dispatch receiver) := by
  unfold Candidate.dispatch
  split
  · exact closed.exec_pure _
  · refine closed.exec_bind (closed.exec_object receiver) fun object => ?_
    dsimp only
    split
    · exact closed.exec_pure _
    · exact closed.exec_fail _

theorem host_callCandidate (candidate : Candidate) (receiver : Option Ref)
    (arguments : List HostValue) : OfExec _ (candidate.call receiver arguments) := by
  refine closed.exec_bind (closed.preparatory.convertEach _ _) fun converted => ?_
  cases receiver with
  | none =>
    refine closed.exec_bind (closed.exec_ensureInitialized _) fun _ => ?_
    exact closed.exec_bind (closed.exec_invoke _ _ _)
      (closed.preparatory.giveResult candidate)
  | some ref =>
    refine closed.exec_bind (closed.host_dispatch candidate ref) fun selected => ?_
    exact closed.exec_bind (closed.exec_invoke _ _ _)
      (closed.preparatory.giveResult candidate)

theorem host_call (target : Target) (name : String) (arguments : List HostValue) :
    OfExec _ (target.call name arguments) :=
  closed.exec_bind (closed.preparatory.select _ _ _ _) fun candidate =>
    closed.host_callCandidate candidate _ arguments

theorem host_callExactly (target : Target) (name descriptor : String)
    (arguments : List HostValue) : OfExec _ (target.callExactly name descriptor arguments) := by
  unfold Target.callExactly
  split
  · exact closed.exec_fail _
  · refine closed.exec_bind (closed.preparatory.takes _ arguments) fun taken => ?_
    split
    · exact closed.host_callCandidate _ _ arguments
    · exact closed.exec_fail _

/-! ## Classes, objects and fields -/

theorem host_load (name : String) : OfExec _ (Session.load name) :=
  closed.exec_load _

theorem host_ofInstance (c : LinkedClass) (ref : Ref) : OfExec _ (Target.ofInstance c ref) := by
  refine closed.exec_bind (closed.exec_object ref) fun object => ?_
  split
  · exact closed.exec_pure _
  · exact closed.exec_fail _

theorem host_place (target : Target) (name : String) : OfExec _ (target.place name) := by
  unfold Target.place
  split
  · split
    · exact closed.exec_fail _
    · exact closed.exec_bind (closed.exec_ensureInitialized _) fun _ => closed.exec_pure _
  · refine closed.exec_bind (closed.exec_object _) fun object => ?_
    dsimp only
    split
    · exact closed.exec_fail _
    · exact closed.exec_pure _

theorem host_getField (target : Target) (name : String) : OfExec _ (target.getField name) := by
  refine closed.exec_bind (closed.host_place target name) fun found => ?_
  refine closed.exec_bind ?_ fun value => closed.preparatory.give _ value
  cases found.1 with
  | static owner slot => exact closed.exec_getStatic owner slot
  | «instance» ref slot => exact closed.exec_getField ref slot

theorem host_setField (target : Target) (name : String) (value : HostValue) :
    OfExec _ (target.setField name value) := by
  refine closed.exec_bind (closed.host_place target name) fun found => ?_
  refine closed.exec_bind (closed.preparatory.acceptedBy _ value) fun accepted => ?_
  split
  · refine closed.exec_bind (closed.preparatory.toValue _ value) fun converted => ?_
    cases found.1 with
    | static owner slot => exact closed.exec_setStatic owner slot _
    | «instance» ref slot => exact closed.exec_putField ref slot _
  · exact closed.exec_fail _

theorem host_construct (c : LinkedClass) (arguments : List HostValue) :
    OfExec _ (c.construct arguments) := by
  unfold LinkedClass.construct
  refine closed.exec_check (closed.exec_fail _) fun _ => ?_
  refine closed.exec_bind (closed.preparatory.select _ _ _ _) fun candidate => ?_
  refine closed.exec_bind (closed.exec_ensureInitialized c) fun _ => ?_
  refine closed.exec_bind (closed.exec_allocate _) fun ref => ?_
  refine closed.exec_bind (closed.preparatory.convertEach _ _) fun converted => ?_
  exact closed.exec_bind (closed.exec_invoke _ _ _) fun _ => closed.exec_pure _

end Catching

end JavaMachine
