import JavaMachine.Proofs.Host.RoundTrip
import JavaMachine.Proofs.Host.Initialization
import Mathlib.Data.Set.Card

/-! # Copies of arrays

The host gets a copy of an array, with copies of its elements. There is one exactly if no chain of
elements goes on for ever: then it has a depth of no more than there are objects, and that much is
always copied (`HostValue.exists_given`, `HostValue.unfolds_of_ofValue`). Arrays whose elements are
not declared as objects of the root class, however deep, have copies (`Heap.Sound.unfolds_of_tame`).
An array of objects may contain itself, and then copying it never ends (`copyOfKnot_overruns`). -/

namespace JavaMachine

open Loader (Defines)
open Operation (bind_of_ok bind_of_error)
open Relation (TransGen)

/-! ## What arrays contain -/

/-- An object is an element of another one, an array. -/
def Heap.Contains (heap : Heap) (inner outer : Ref) : Prop :=
  ∃ component slots, (heap.get outer).body = .elements component slots ∧
    Value.reference (some inner) ∈ slots

/-- No chain of elements that starts with an object goes on for ever. -/
def Heap.Unfolds (heap : Heap) (ref : Ref) : Prop :=
  Acc heap.Contains ref

/-- What is below an object in chains of elements. -/
def Heap.within (heap : Heap) (ref : Ref) : Set Ref :=
  {inner | TransGen heap.Contains inner ref}

namespace Heap

variable {heap : Heap} {sources : List ClassSource} {ref inner outer : Ref}

theorem unfolds_of_plain (plain : (heap.get ref).array? = none) : heap.Unfolds ref := by
  refine Acc.intro ref fun inner ⟨component, slots, elements, _⟩ => ?_
  rw [HeapObject.array?, elements] at plain
  cases plain

theorem not_unfolds_of_self (contains : heap.Contains ref ref) : ¬ heap.Unfolds ref := by
  intro unfolds
  induction unfolds with
  | intro ref _ ih => exact ih ref contains contains

theorem not_mem_within (unfolds : heap.Unfolds ref) : ref ∉ heap.within ref := by
  intro below
  replace unfolds : Acc (TransGen heap.Contains) ref := unfolds.transGen
  induction unfolds with
  | intro ref _ ih => exact ih ref below below

theorem old_of_elements {component : FieldType} {slots : Array Value}
    (elements : (heap.get ref).body = .elements component slots) : ref < heap.objects.size := by
  by_contra dangling
  rw [get_of_not_lt dangling] at elements
  cases elements

/-- The elements of an array are of their type. -/
theorem Sound.holds_of_elements (sound : heap.Sound sources) {component : FieldType}
    {slots : Array Value} (elements : (heap.get ref).body = .elements component slots)
    {content : Value} (member : content ∈ slots.toList) : component.Holds content := by
  have array : (heap.get ref).array? = some (component, slots) := by
    rw [HeapObject.array?, elements]
  exact (sound ref (old_of_elements elements)).elements component slots array content
    (Array.mem_toList_iff.mp member)

/-- What is contained in something is an object, of a class that is assignable to that of elements. -/
theorem Sound.fits_of_contains (sound : heap.Sound sources) (contains : heap.Contains inner outer) :
    inner < heap.objects.size ∧ ∃ expected, (heap.get outer).type.element = some expected ∧
      (heap.get inner).type.isAssignableTo expected = true := by
  obtain ⟨component, slots, elements, member⟩ := id contains
  have array : (heap.get outer).array? = some (component, slots) := by
    rw [HeapObject.array?, elements]
  exact ((sound outer (old_of_elements elements)).fits component slots array _ member).assignable inner rfl

theorem Sound.within_subset (sound : heap.Sound sources) :
    heap.within ref ⊆ Set.Iio heap.objects.size := by
  intro inner below
  induction below using TransGen.head_induction_on with
  | single contains => exact (sound.fits_of_contains contains).1
  | head contains _ _ => exact (sound.fits_of_contains contains).1

theorem Sound.within_finite (sound : heap.Sound sources) : (heap.within ref).Finite :=
  (Set.finite_Iio _).subset sound.within_subset

/-- No object has more below it than there are objects. -/
theorem Sound.ncard_within_le (sound : heap.Sound sources) :
    (heap.within ref).ncard ≤ heap.objects.size := by
  have below : heap.within ref ⊆ Set.Iio heap.objects.size := sound.within_subset
  have bound := Set.ncard_le_ncard below (Set.finite_Iio _)
  rwa [Set.ncard_Iio_nat] at bound

/-- An element has less below it than the array that contains it. -/
theorem Sound.ncard_within_lt (sound : heap.Sound sources) (contains : heap.Contains inner outer)
    (unfolds : heap.Unfolds outer) : (heap.within inner).ncard < (heap.within outer).ncard := by
  refine Set.ncard_lt_ncard ⟨fun below path => path.tail contains, fun subset => ?_⟩
    sound.within_finite
  exact not_mem_within (unfolds.inv contains) (subset (.single contains))

end Heap

/-! ## Arrays without objects -/

/-- Where arrays of objects cannot stand: a class that is not the root, and arrays of numbers or of
such a class, however deep. -/
inductive LinkedClass.Tame : LinkedClass → Prop where
  | plain {c : LinkedClass} (component : c.component = none) (below : c.name ≠ ClassName.object) :
      Tame c
  | numbers {c : LinkedClass} {type : FieldType} (component : c.component = some type)
      (primitive : type.isReference = false) : Tame c
  | array {c inner : LinkedClass} (contained : c.element = some inner) (tame : Tame inner) : Tame c

namespace Heap.Sound

variable {heap : Heap} {sources : List ClassSource} {ref : Ref} {component : FieldType}
  {slots : Array Value} {c : LinkedClass}

/-- The class of an array is defined as one. -/
theorem defined_of_elements (sound : heap.Sound sources)
    (elements : (heap.get ref).body = .elements component slots) :
    Defines sources (heap.get ref).type ∧ (heap.get ref).type.component = some component := by
  have typed := (sound ref (old_of_elements elements)).toTyped
  have array : (heap.get ref).array? = some (component, slots) := by
    rw [HeapObject.array?, elements]
  have known := typed.component component slots array
  rcases typed.provided with defined | undefined
  · exact ⟨defined, known⟩
  · rw [undefined] at known
    cases known

/-- **Arrays that stand where no arrays of objects can unfold**: each of their elements stands where
the elements of the class do. -/
theorem unfolds_of_tame (sound : heap.Sound sources)
    (rootExtensible : ∀ root, Defines sources root → root.name = ClassName.object →
      root.isInterface = false ∧ root.flags.isFinal = false)
    (defined : Defines sources c) (tame : c.Tame)
    (assignable : (heap.get ref).type.isAssignableTo c = true) : heap.Unfolds ref := by
  induction tame generalizing ref with
  | @plain c plain below =>
    refine Acc.intro ref fun inner ⟨component, slots, elements, _⟩ => ?_
    obtain ⟨-, array⟩ := sound.defined_of_elements elements
    rw [LinkedClass.isAssignableTo_of_array array plain] at assignable
    exact absurd (beq_iff_eq.mp assignable) below
  | @numbers c expected numbers primitive =>
    refine Acc.intro ref fun inner ⟨component, slots, elements, member⟩ => ?_
    obtain ⟨-, array⟩ := sound.defined_of_elements elements
    rw [LinkedClass.isAssignableTo_of_arrays array numbers, primitive, Bool.and_false,
      if_neg Bool.false_ne_true] at assignable
    obtain rfl := beq_iff_eq.mp assignable
    have holds := sound.holds_of_elements elements (Array.mem_toList_iff.mpr member)
    have reference : component.isReference = true :=
      FieldType.isReference_iff.mpr (SlotKind.value.inj holds.kind).symm
    cases reference.symm.trans primitive
  | @array c target contained _ ih =>
    refine Acc.intro ref fun inner contains => ?_
    obtain ⟨component, slots, elements, member⟩ := id contains
    obtain ⟨outerDefined, array⟩ := sound.defined_of_elements elements
    obtain ⟨expected, arrays, expectedReference, -⟩ := defined.isSome_component contained
    obtain ⟨-, declared, outerContained, fits⟩ := sound.fits_of_contains contains
    obtain ⟨_, again, reference, -⟩ := outerDefined.isSome_component outerContained
    obtain rfl := Option.some.inj (array.symm.trans again)
    have below : declared.isAssignableTo target = true := by
      rw [LinkedClass.isAssignableTo_of_arrays array arrays, reference, expectedReference,
        outerContained, contained] at assignable
      exact assignable
    cases body : (heap.get inner).body with
    | text text => exact unfolds_of_plain (by rw [HeapObject.array?, body])
    | fields slots => exact unfolds_of_plain (by rw [HeapObject.array?, body])
    | elements innerComponent innerSlots =>
      have innerDefined := (sound.defined_of_elements body).1
      have declaredDefined := outerDefined.linksTo_defined (.element outerContained)
      have targetDefined := defined.linksTo_defined (.element contained)
      refine ih targetDefined ?_
      rw [innerDefined.isAssignableTo_iff rootExtensible targetDefined]
      exact innerDefined.descends_trans rootExtensible declaredDefined targetDefined
        ((innerDefined.isAssignableTo_iff rootExtensible declaredDefined).mp fits)
        ((declaredDefined.isAssignableTo_iff rootExtensible targetDefined).mp below)

end Heap.Sound

/-- What is of the kind of a type of references is a reference. -/
theorem Value.exists_reference {type : FieldType} {content : Value}
    (kind : content.kind = .value type.kind) (reference : type.isReference = true) :
    ∃ target, content = .reference target := by
  rw [FieldType.isReference_iff.mp reference] at kind
  cases content <;> cases kind
  exact ⟨_, rfl⟩

/-! ## What the host gets -/

namespace HostValue

variable {machine after : Machine} {heap : Heap} {sources : List ClassSource} {services : Services}
  {fuel : Nat} {type : FieldType} {content : Value} {value : HostValue} {ref : Ref}
  {interruption : Interruption}

/-- A number is given at once. -/
theorem exists_given_number (kind : content.kind = .value type.kind) (plain : type.isReference = false) :
    ∃ value, Given heap 1 type content value := by
  have direct : ∃ value, ∀ less services machine,
      ofValue (less + 1) type content services machine = .ok value machine := by
    cases type <;> first | cases plain; done | skip
    all_goals
      cases content <;> cases kind
      exact ⟨_, fun _ _ _ => rfl⟩
  obtain ⟨value, given⟩ := direct
  refine ⟨value, fun more enough services machine _ => ?_⟩
  obtain ⟨less, rfl⟩ := Nat.exists_eq_succ_of_ne_zero (Nat.one_le_iff_ne_zero.mp enough)
  exact given less services machine

theorem exists_forall₂ {α β : Type} {related : α → β → Prop} {entries : List α}
    (each : ∀ entry ∈ entries, ∃ other, related entry other) :
    ∃ others, List.Forall₂ related entries others := by
  induction entries with
  | nil => exact ⟨[], .nil⟩
  | cons first rest ih =>
    obtain ⟨other, here⟩ := each first List.mem_cons_self
    obtain ⟨others, there⟩ := ih fun entry member => each entry (List.mem_cons_of_mem _ member)
    exact ⟨other :: others, .cons here there⟩

/-- **What unfolds has a copy**, no deeper than there are objects below it. -/
theorem exists_given (sound : heap.Sound sources) (unfolds : heap.Unfolds ref)
    (old : ref < heap.objects.size) (reference : type.isReference = true) :
    ∃ value, Given heap ((heap.within ref).ncard + 2) type (.reference (some ref)) value := by
  induction unfolds generalizing type with
  | intro ref accessible ih =>
    cases body : (heap.get ref).body with
    | text text =>
      exact ⟨_, (given_string reference old body).retains (.refl heap) (by omega)⟩
    | fields slots =>
      exact ⟨_, (given_object reference ⟨old, slots, body⟩).retains (.refl heap) (by omega)⟩
    | elements component slots =>
      have each (content : Value) (member : content ∈ slots.toList) :
          ∃ value, Given heap ((heap.within ref).ncard + 1) component content value := by
        have kind := (sound.holds_of_elements body member).kind
        cases plain : component.isReference with
        | false =>
          obtain ⟨value, given⟩ := exists_given_number kind plain
          exact ⟨value, given.retains (.refl heap) (by omega)⟩
        | true =>
          obtain ⟨target, rfl⟩ := content.exists_reference kind plain
          cases target with
          | none => exact ⟨_, (given_null plain).retains (.refl heap) (by omega)⟩
          | some inner =>
            have contains : heap.Contains inner ref := 
              ⟨component, slots, body, Array.mem_toList_iff.mp member⟩
            have less := sound.ncard_within_lt contains (.intro ref accessible)
            obtain ⟨value, given⟩ :=
              ih inner contains (sound.fits_of_contains contains).1 plain
            exact ⟨value, given.retains (.refl heap) (by omega)⟩
      obtain ⟨values, given⟩ := exists_forall₂ each
      exact ⟨_, given_array reference old body given⟩

/-- The machine is as it was, and there is a value, or the depth has not been enough. -/
def Tries (give : Exec HostValue) (services : Services) (machine : Machine) : Prop :=
  (∃ value, give services machine = .ok value machine) ∨
    give services machine = .error .outOfFuel machine

section Tries

variable {give : Value → Exec HostValue} {contents : List Value}

theorem tries_mapM (each : ∀ content ∈ contents, Tries (give content) services machine) :
    (∃ values, contents.mapM give services machine = .ok values machine) ∨
      contents.mapM give services machine = .error .outOfFuel machine := by
  induction contents with
  | nil => exact .inl ⟨[], rfl⟩
  | cons first rest ih =>
    rw [List.mapM_cons]
    rcases each first List.mem_cons_self with ⟨value, here⟩ | here
    · rw [bind_of_ok here]
      rcases ih fun content member => each content (List.mem_cons_of_mem _ member) with
        ⟨values, there⟩ | there
      · rw [bind_of_ok there]
        exact .inl ⟨_, rfl⟩
      · exact .inr (bind_of_error there)
    · exact .inr (bind_of_error here)

/-- If all are given, each one is. -/
theorem exists_of_mapM (each : ∀ content ∈ contents, Tries (give content) services machine)
    {values : List HostValue} (ended : contents.mapM give services machine = .ok values after)
    (member : content ∈ contents) : ∃ value, give content services machine = .ok value machine := by
  induction contents generalizing values after with
  | nil => cases member
  | cons first rest ih =>
    rw [List.mapM_cons] at ended
    rcases each first List.mem_cons_self with ⟨value, here⟩ | here
    · rw [bind_of_ok here] at ended
      obtain ⟨others, between, there, -⟩ := Operation.exists_of_bind_ok ended
      rcases List.mem_cons.mp member with rfl | member
      · exact ⟨value, here⟩
      · exact ih (fun content member => each content (List.mem_cons_of_mem _ member)) there member
    · rw [bind_of_error here] at ended
      cases ended

end Tries

theorem ofValue_reference (reference : type.isReference = true) (target : Option Ref) :
    ofValue (fuel + 1) type (.reference target) = ofReference (ofValue fuel) target := by
  cases type <;> first | rfl | cases reference

theorem ofReference_elements {give : Giving} {component : FieldType} {slots : Array Value}
    (elements : (machine.heap.get ref).body = .elements component slots) :
    ofReference give (some ref) services machine =
      (do return array (← slots.toList.mapM (give component)) : Exec HostValue) services machine := by
  have looked : Exec.object ref services machine = .ok (machine.heap.get ref) machine := rfl
  unfold ofReference
  dsimp only
  rw [bind_of_ok looked, elements]

/-- For whatever is of the kind of a type the host gets a value, or the depth is not enough. -/
theorem tries_ofValue (sound : machine.heap.Sound sources) (kind : content.kind = .value type.kind) :
    Tries (ofValue fuel type content) services machine := by
  induction fuel generalizing type content with
  | zero => exact .inr rfl
  | succ fuel ih =>
    cases plain : type.isReference with
    | false =>
      obtain ⟨value, given⟩ : ∃ value, Given machine.heap 1 type content value :=
        exists_given_number kind plain
      exact .inl ⟨value, given _ (by omega) services machine (.refl _)⟩
    | true =>
      obtain ⟨target, rfl⟩ := content.exists_reference kind plain
      rw [Tries, ofValue_reference plain]
      cases target with
      | none => exact .inl ⟨_, rfl⟩
      | some ref =>
        have looked : Exec.object ref services machine = .ok (machine.heap.get ref) machine := rfl
        cases body : (machine.heap.get ref).body with
        | elements component slots =>
          rw [ofReference_elements body]
          rcases tries_mapM fun content member =>
            ih (sound.holds_of_elements body member).kind with ⟨values, given⟩ | short
          · exact .inl ⟨_, bind_of_ok given⟩
          · exact .inr (bind_of_error short)
        | text text =>
          left
          unfold ofReference
          dsimp only
          rw [bind_of_ok looked, body]
          exact ⟨_, rfl⟩
        | fields slots =>
          left
          unfold ofReference
          dsimp only
          rw [bind_of_ok looked, body]
          exact ⟨_, rfl⟩

/-- **What the host has got a value for unfolds.** -/
theorem unfolds_of_ofValue (sound : machine.heap.Sound sources) (reference : type.isReference = true)
    (ended : ofValue fuel type (.reference (some ref)) services machine = .ok value after) :
    machine.heap.Unfolds ref := by
  induction fuel generalizing ref type value after with
  | zero => cases ended
  | succ fuel ih =>
    refine Acc.intro ref fun inner ⟨component, slots, body, member⟩ => ?_
    rw [ofValue_reference reference, ofReference_elements body] at ended
    obtain ⟨values, between, copied, -⟩ := Operation.exists_of_bind_ok ended
    have inside := Array.mem_toList_iff.mpr member
    have kinds content (member : content ∈ slots.toList) : content.kind = .value component.kind :=
      (sound.holds_of_elements body member).kind
    obtain ⟨value, given⟩ := exists_of_mapM
      (fun content member => tries_ofValue sound (kinds content member)) copied inside
    have referring : component.isReference = true :=
      FieldType.isReference_iff.mpr (SlotKind.value.inj (kinds _ inside)).symm
    exact ih referring given

/-- What unfolds is copied if the depth is that of all objects. -/
theorem exists_ofValue (sound : machine.heap.Sound sources) (reference : type.isReference = true)
    (unfolds : machine.heap.Unfolds ref) : ∃ value, ∀ fuel ≥ machine.heap.objects.size + 2,
      ∀ services, ofValue fuel type (.reference (some ref)) services machine = .ok value machine := by
  by_cases old : ref < machine.heap.objects.size
  · obtain ⟨value, given⟩ := exists_given sound unfolds old reference
    have depth : (machine.heap.within ref).ncard ≤ machine.heap.objects.size :=
      sound.ncard_within_le
    exact ⟨value, fun fuel enough services => given fuel (by omega) services machine (.refl _)⟩
  · refine ⟨object ref, fun fuel enough services => ?_⟩
    obtain ⟨less, rfl⟩ := Nat.exists_eq_succ_of_ne_zero (Nat.ne_zero_of_lt enough)
    have looked : Exec.object ref services machine = .ok (machine.heap.get ref) machine := rfl
    rw [ofValue_reference reference]
    unfold ofReference
    dsimp only
    rw [bind_of_ok looked, Heap.get_of_not_lt old]
    rfl

/-- **Copying what does not unfold never ends**: no depth is enough. -/
theorem ofValue_of_not_unfolds (sound : machine.heap.Sound sources)
    (reference : type.isReference = true) (folded : ¬ machine.heap.Unfolds ref) :
    ofValue fuel type (.reference (some ref)) services machine = .error .outOfFuel machine := by
  rcases tries_ofValue sound (FieldType.holds_reference reference (some ref)).kind with
    ⟨value, given⟩ | short
  · exact absurd (unfolds_of_ofValue sound reference given) folded
  · exact short

theorem ofValue_of_kind_ne (other : content.kind ≠ .value type.kind) :
    ofValue (fuel + 1) type content services machine =
      .error (.fatal (.virtualMachine (.undeclaredValue content.kind type))) machine := by
  cases type <;> cases content <;> first | rfl | exact absurd rfl other

end HostValue

/-! ## Results -/

/-- An action ends, with a result or an error. -/
def Exec.Answers {α : Type} (action : Exec α) (services : Services) (before after : Machine) : Prop :=
  (∃ value, action services before = .ok value after) ∨
    ∃ error, action services before = .error (.fatal error) after

/-- What is declared with a type is a number, or unfolds. -/
def Heap.Copies (heap : Heap) (type : FieldType) (content : Value) : Prop :=
  type.isReference = true → ∀ ref, content = .reference (some ref) → heap.Unfolds ref

section Answers

variable {sources : List ClassSource} {before machine : Machine} {services : Services} {fuel : Nat}
  {type : FieldType} {content : Value}

/-- For what copies the host gets one and the same answer with every depth from that of all objects
on. -/
theorem HostValue.exists_answer (sound : machine.heap.Sound sources)
    (copies : machine.heap.Copies type content) :
    (∃ value, ∀ fuel ≥ machine.heap.objects.size + 2,
        ofValue fuel type content services machine = .ok value machine) ∨
      ∃ error, ∀ fuel ≥ machine.heap.objects.size + 2,
        ofValue fuel type content services machine = .error (.fatal error) machine := by
  by_cases kind : content.kind = .value type.kind
  · left
    have of_given {value : HostValue} (given : Given machine.heap 1 type content value) :
        ∀ fuel ≥ machine.heap.objects.size + 2,
          ofValue fuel type content services machine = .ok value machine :=
      fun fuel enough => given fuel (by omega) services machine (.refl _)
    cases plain : type.isReference with
    | false =>
      obtain ⟨value, given⟩ := exists_given_number kind plain
      exact ⟨value, of_given given⟩
    | true =>
      obtain ⟨target, rfl⟩ := content.exists_reference kind plain
      cases target with
      | none => exact ⟨null, of_given (given_null plain)⟩
      | some ref =>
        obtain ⟨value, given⟩ := exists_ofValue sound plain (copies plain ref rfl)
        exact ⟨value, fun fuel enough => given fuel enough services⟩
  · refine .inr ⟨.virtualMachine (.undeclaredValue content.kind type), fun fuel enough => ?_⟩
    obtain ⟨less, rfl⟩ := Nat.exists_eq_succ_of_ne_zero (Nat.ne_zero_of_lt enough)
    exact ofValue_of_kind_ne kind

theorem HostValue.ofValue_of_not_copies (sound : machine.heap.Sound sources)
    (folded : ¬ machine.heap.Copies type content) :
    ofValue fuel type content services machine = .error .outOfFuel machine := by
  simp only [Heap.Copies, not_forall] at folded
  obtain ⟨reference, ref, rfl, folded⟩ := folded
  exact ofValue_of_not_unfolds sound reference folded

/-- **The host gets an answer for what copies, and for nothing else.** -/
theorem HostValue.answers_give_iff (sound : machine.heap.Sound sources) :
    (give type content).Answers services machine machine ↔ machine.heap.Copies type content := by
  constructor
  · intro answers
    by_contra folded
    have short : give type content services machine = .error .outOfFuel machine :=
      ofValue_of_not_copies sound folded
    rw [Exec.Answers, short] at answers
    rcases answers with ⟨value, given⟩ | ⟨error, refused⟩
    · cases given
    · cases refused
  · intro copies
    rcases exists_answer sound copies with ⟨value, given⟩ | ⟨error, refused⟩
    · exact .inl ⟨value, given _ le_rfl⟩
    · exact .inr ⟨error, refused _ le_rfl⟩

/-- More depth than is allowed makes no difference to what copies. -/
theorem HostValue.ofValue_eq_give (sound : machine.heap.Sound sources)
    (copies : machine.heap.Copies type content) (enough : machine.heap.objects.size + 2 ≤ fuel) :
    ofValue fuel type content services machine = give type content services machine := by
  rcases exists_answer sound copies with ⟨value, given⟩ | ⟨error, refused⟩
  · exact (given fuel enough).trans (given _ le_rfl).symm
  · exact (refused fuel enough).trans (refused _ le_rfl).symm

end Answers

/-- What crosses to the host: what copies does, with an answer, and nothing else, however deep it is
copied; and of arrays that are not arrays of objects, however deep, all do. -/
structure Machine.GivesResults (setup : Setup) (machine : Machine) : Prop where
  gives (type : FieldType) (content : Value) (services : Services) :
    (HostValue.give type content).Answers services machine machine ↔
      machine.heap.Copies type content
  enough (type : FieldType) (content : Value) (services : Services)
    (copies : machine.heap.Copies type content) (fuel : Nat)
    (deep : machine.heap.objects.size + 2 ≤ fuel) :
    HostValue.ofValue fuel type content services machine =
      HostValue.give type content services machine
  overruns (type : FieldType) (content : Value) (services : Services)
    (folded : ¬ machine.heap.Copies type content) (fuel : Nat) :
    HostValue.ofValue fuel type content services machine = .error .outOfFuel machine
  /-- A method has ended with something. -/
  returns (candidate : Candidate) (type : FieldType)
    (declared : candidate.method.descriptor.returnType = some type) (content : Value)
    (services : Services) :
    (candidate.giveResult (some content)).Answers services machine machine ↔
      machine.heap.Copies type content
  /-- A field has been found and holds something. -/
  gets (target : Target) (name : String) (services : Services) (before : Machine)
    (place : Target.Place) (type : FieldType) (content : Value)
    (placed : target.place name services before = .ok (place, type) machine)
    (held : place.read services machine = .ok content machine) :
    (target.getField name).Answers services before machine ↔ machine.heap.Copies type content
  tame (c : LinkedClass) (defined : Defines setup.sources c) (tame : c.Tame) (ref : Ref)
    (assignable : (machine.heap.get ref).type.isAssignableTo c = true) : machine.heap.Unfolds ref

theorem Machine.Sound.results_given {setup : Setup} (grounded : setup.Grounded) {machine : Machine}
    (sound : machine.Sound setup.sources) : machine.GivesResults setup where
  gives _ _ _ := HostValue.answers_give_iff sound.heap
  enough _ _ _ copies _ deep := HostValue.ofValue_eq_give sound.heap copies deep
  overruns _ _ _ folded _ := HostValue.ofValue_of_not_copies sound.heap folded
  returns candidate type declared content services := by
    have same : candidate.giveResult (some content) = HostValue.give type content := by
      unfold Candidate.giveResult
      rw [declared]
    rw [same]
    exact HostValue.answers_give_iff sound.heap
  gets target name services before place type content placed held := by
    have same : target.getField name services before =
        HostValue.give type content services machine := (bind_of_ok placed).trans (bind_of_ok held)
    rw [Exec.Answers, same]
    exact HostValue.answers_give_iff sound.heap
  tame _ defined tame _ assignable := sound.heap.unfolds_of_tame grounded.extensible defined tame assignable

/-! ## Sessions -/

/-- **Results cross to the host exactly if they unfold**, at every moment of every session: what a
method returns and what a field holds is then given, or refused with an error; otherwise no depth is
enough to copy it. -/
theorem Session.Reached.givesResults {options : Options} {session : Session}
    (hosted : Hosted options) (reached : Reached options session) :
    session.Maintains (fun machine => machine.GivesResults session.setup) fun _ _ => True :=
  reached.maintains hosted (fun _ sound => sound.results_given reached.grounded) fun _ _ _ => trivial

/-! ## Knots -/

/-- A knot is an array that contains itself. -/
def knotScript : ClassScript where
  name := "Knot"
  superclass := some ClassName.object
  items := [
    .field Builtin.publicStatic "loop" "Ljava/lang/Object;",
    .method Builtin.publicStatic "tie" "()V" 0 [
      .iconst 1, .classUse .newArray ClassName.object, .store .reference 0,
      .load .reference 0, .iconst 0, .load .reference 0, .plain (Opcode.arrayStore (.value .reference)).byte,
      .load .reference 0, .field .putStatic "Knot" "loop" "Ljava/lang/Object;",
      .plain Opcode.returnVoid.byte]]

/-- A session in which no knot has been tied yet. -/
@[irreducible] def knots : Session :=
  Session.opened (Options.ofScripts [knotScript] 16)

/-- Has a knot tied. -/
def tieKnot : Exec HostValue := do
  (← Target.named "Knot" none).call "tie" []

/-- What the class of knots holds. -/
def heldKnot (machine : Machine) : Option Value :=
  (machine.loaded.lookup "Knot").bind fun c => (Exec.stateIn c machine).statics[0]?

theorem knots_facts :
    (Session.start (Options.ofScripts [knotScript] 16)).isOk = true ∧
      heldKnot (knots.perform tieKnot).2.machine = some (.reference (some 0)) ∧
      ((knots.perform tieKnot).2.machine.heap.get 0).body =
        .elements (.object ClassName.object) #[.reference (some 0)] := by
  decide +kernel

theorem reached_knots :
    Session.Reached (Options.ofScripts [knotScript] 16) (knots.perform tieKnot).2 := by
  unfold knots
  exact .performed (.started (Session.start_opened knots_facts.1)) (.call "Knot" none "tie" [])

theorem Session.Reached.givesResults_knots :
    Session.Reached.Hosted (Options.ofScripts [knotScript] 16) ∧
      Session.Reached (Options.ofScripts [knotScript] 16) (knots.perform tieKnot).2 ∧
      (knots.perform tieKnot).2.Maintains
        (fun machine => machine.GivesResults (knots.perform tieKnot).2.setup) fun _ _ => True :=
  ⟨hosted_ofScripts, reached_knots, givesResults hosted_ofScripts reached_knots⟩

/-- **A knot cannot be given to the host**: a field holds it, and no depth is enough to copy it. -/
theorem copyOfKnot_overruns :
    Session.Reached (Options.ofScripts [knotScript] 16) (knots.perform tieKnot).2 ∧
      heldKnot (knots.perform tieKnot).2.machine = some (.reference (some 0)) ∧
      ∀ fuel services, HostValue.ofValue fuel (.object ClassName.object) (.reference (some 0)) services
        (knots.perform tieKnot).2.machine = .error .outOfFuel (knots.perform tieKnot).2.machine := by
  obtain ⟨-, held, body⟩ := knots_facts
  have contains : (knots.perform tieKnot).2.machine.heap.Contains 0 0 := ⟨_, _, body, by simp⟩
  have sound := (reached_knots.sound Session.Reached.hosted_ofScripts).1
  refine ⟨reached_knots, held, fun fuel services => ?_⟩
  exact HostValue.ofValue_of_not_unfolds sound.heap rfl (Heap.not_unfolds_of_self contains)

end JavaMachine
