import JavaMachine.Proofs.Host.Reached

/-! # Arrays and static fields in sessions

Two stores of a machine are written in many ways: the elements of arrays, by instructions under
whatever type an array is known, by the native method that copies elements and by conversions of what
the host passes; and the static fields, by instructions, by the host and by initializations. Whatever
a session performs, arrays stay typed and keep their class and length
(`Session.Reached.arrays_maintained`). Static fields hold values of their types, but for those that start
with a constant: the initialization of a class puts constants into fields as they are
(`Session.Reached.statics_maintained`, `limit_of_gauges`). -/

namespace JavaMachine

open Loader (Defines)

/-! ## Arrays -/

namespace Heap

/-- The elements of every array are of the kind of its component type and in its range, and what they
point to is an object of a class that is assignable to the element class of the array's class. -/
structure ArraysTyped (heap : Heap) : Prop where
  component (ref : Ref) (component : FieldType) (slots : Array Value)
    (array : (heap.get ref).array? = some (component, slots)) :
    (heap.get ref).type.component = some component
  kind (ref : Ref) (component : FieldType) (slots : Array Value)
    (array : (heap.get ref).array? = some (component, slots)) (value : Value)
    (element : value ∈ slots) : value.kind = .value component.kind
  range (ref : Ref) (component : FieldType) (slots : Array Value)
    (array : (heap.get ref).array? = some (component, slots)) (value : Value)
    (element : value ∈ slots) : component.Ranges value
  assignable (ref : Ref) (component : FieldType) (slots : Array Value)
    (array : (heap.get ref).array? = some (component, slots)) (target : Ref)
    (element : .reference (some target) ∈ slots) :
    target < heap.objects.size ∧ ∃ expected, (heap.get ref).type.element = some expected ∧
      (heap.get target).type.isAssignableTo expected = true

/-- Every array stays an array of its class, with elements of its type and as many of them. -/
def KeepsArrays (before after : Heap) : Prop :=
  ∀ ref component slots, (before.get ref).array? = some (component, slots) →
    (after.get ref).type = (before.get ref).type ∧
      ∃ slots', (after.get ref).array? = some (component, slots') ∧ slots'.size = slots.size

variable {sources : List ClassSource} {heap before after : Heap}

theorem lt_of_array {ref : Ref} {component : FieldType} {slots : Array Value}
    (array : (heap.get ref).array? = some (component, slots)) : ref < heap.objects.size := by
  by_contra dangling
  rw [get_of_not_lt dangling] at array
  cases array

theorem Sound.arraysTyped (sound : heap.Sound sources) : heap.ArraysTyped where
  component ref component slots array :=
    (sound ref (lt_of_array array)).component component slots array
  kind ref component slots array value element :=
    ((sound ref (lt_of_array array)).elements component slots array value element).kind
  range ref component slots array value element :=
    ((sound ref (lt_of_array array)).elements component slots array value element).ranges
  assignable ref component slots array target element :=
    ((sound ref (lt_of_array array)).fits component slots array _ element).assignable target rfl

theorem Grows.keepsArrays (grows : before.Grows after) : before.KeepsArrays after := by
  intro ref component slots array
  have same := grows.shape ref (lt_of_array array)
  refine ⟨congrArg Prod.fst same, ?_⟩
  have bodies := congrArg Prod.snd same
  simp only [HeapObject.shape, array, Option.map_some, Option.map_eq_some_iff] at bodies
  obtain ⟨⟨component', slots'⟩, array', same⟩ := bodies
  obtain ⟨rfl, size⟩ := Prod.mk.inj same
  exact ⟨slots', array', size⟩

end Heap

/-! ## Static fields -/

/-- A static field whose constant, if it has one, is a value of its type. -/
def Field.FitsConstant (field : Field) : Prop :=
  ∀ constant value, field.constant = some constant → constant.Gives value → field.type.Holds value

/-- The static fields of a machine: the state of each class has a slot for each of its static
fields, which holds a value of the type of the field or the constant that the field starts with. -/
structure Machine.StaticsStored (sources : List ClassSource) (machine : Machine) : Prop where
  size (c : LinkedClass) (defined : Defines sources c) :
    (Exec.stateIn c machine).statics.size = c.staticFields.length
  stores (c : LinkedClass) (defined : Defines sources c) (field : Field)
    (member : field ∈ c.staticFields) :
    ∃ value, (Exec.stateIn c machine).statics[field.slot]? = some value ∧ field.Stores value
  /-- Where the constant fits the type, or there is none, the field holds a value of its type. -/
  holds (c : LinkedClass) (defined : Defines sources c) (field : Field)
    (member : field ∈ c.staticFields) (fits : field.FitsConstant) :
    ∃ value, (Exec.stateIn c machine).statics[field.slot]? = some value ∧ field.type.Holds value

theorem Machine.Sound.staticsStored {sources : List ClassSource} {machine : Machine}
    (sound : machine.Sound sources) : machine.StaticsStored sources := by
  have stored (c : LinkedClass) (defined : Defines sources c) (field : Field)
      (member : field ∈ c.staticFields) :
      ∃ value, (Exec.stateIn c machine).statics[field.slot]? = some value ∧ field.Stores value := by
    have state := sound.classes c defined
    obtain ⟨position, present⟩ := List.getElem?_of_mem member
    have within : field.slot < (Exec.stateIn c machine).statics.size := by
      rw [defined.slot_staticField present, state.size]
      exact (List.getElem?_eq_some_iff.mp present).1
    have held := Array.getElem?_eq_getElem within
    exact ⟨_, held, state.statics field member _ held⟩
  refine ⟨fun c defined => (sound.classes c defined).size, stored, ?_⟩
  intro c defined field member fits
  obtain ⟨value, held, holds | ⟨constant, starts, gives⟩⟩ := stored c defined field member
  · exact ⟨value, held, holds⟩
  · exact ⟨value, held, fits constant value starts gives⟩

/-! ## Gauges -/

/-- The limit of gauges is a byte that starts with a constant which is none. Their readings are bytes,
the first of which is to be as large. -/
def gaugeScripts : List ClassScript := [
  ⟨"Gauge", some ClassName.object, [
    .constantField Builtin.publicStatic "limit" "B" (.int 300),
    .method Builtin.publicStatic "limit" "()I" 0 [
      .field .getStatic "Gauge" "limit" "B",
      .plain (Opcode.returnValue .int).byte],
    .method Builtin.publicStatic "readings" "()[B" 0 [
      .iconst 2, .newarray 8,
      -- `0x59` duplicates the array, which stays on the stack when its element is stored.
      .plain 0x59, .iconst 0, .iconst 300,
      .plain (Opcode.arrayStore .byte).byte,
      .plain (Opcode.returnValue .reference).byte]]⟩]

def gaugeOptions : Options where
  sources := match gaugeScripts.mapM Builtin.fileOf with
    | .ok files => [.ofClasses files]
    | .error _ => []
  fuel := 8

/-- A session in which nothing has been done with gauges yet. -/
@[irreducible] def gauges : Session :=
  match Session.start gaugeOptions with
  | .ok session => session
  | .error _ => ⟨⟨[], {}, default, []⟩, 0, {}⟩

/-- Has the readings of gauges taken. -/
def takeReadings : Exec HostValue := do
  (← Target.named "Gauge" none).call "readings" []

/-- The types and the slots of the static fields of gauges, and what is in the slots. -/
def gaugeFields (machine : Machine) : Option (List (FieldType × Nat) × Array Value) :=
  (machine.loaded.lookup "Gauge").map fun c =>
    (c.staticFields.map fun field => (field.type, field.slot), (Exec.stateIn c machine).statics)

theorem gauges_facts :
    (Session.start gaugeOptions).isOk = true ∧
      gaugeFields (gauges.perform takeReadings).2.machine = some ([(.byte, 0)], #[.int 300]) ∧
      ((gauges.perform takeReadings).2.machine.heap.get 0).array? =
        some (.byte, #[.int 44, .int 0]) := by
  decide +kernel

theorem start_gauges : Session.start gaugeOptions = .ok gauges := by
  have isOk := gauges_facts.1
  unfold gauges
  cases started : Session.start gaugeOptions with
  | ok session => rfl
  | error error =>
    rw [started] at isOk
    cases isOk

theorem reached_gauges : Session.Reached gaugeOptions (gauges.perform takeReadings).2 :=
  .performed (.started start_gauges) (.call "Gauge" none "readings" [])

theorem hosted_gauges : Session.Reached.Hosted gaugeOptions := by
  intro entry member
  cases (member : entry ∈ [])

/-! ## Sessions -/

namespace Session.Reached

variable {options : Options} {session : Session}

/-- **Arrays stay sound in every session**, whatever the host does and whatever code there is: they
keep their class and their length, and each element is of the type of the elements. -/
theorem arrays_maintained (hosted : Hosted options) (reached : Reached options session) :
    session.Maintains (fun machine => machine.heap.ArraysTyped)
      fun before after => before.heap.KeepsArrays after.heap :=
  reached.maintains hosted (fun _ sound => sound.heap.arraysTyped)
    fun _ _ grows => grows.keepsArrays

/-- The readings of gauges have been cut to bytes. -/
theorem arrays_maintained_gauges :
    Hosted gaugeOptions ∧ Reached gaugeOptions (gauges.perform takeReadings).2 ∧
      ((gauges.perform takeReadings).2.machine.heap.get 0).array? =
        some (.byte, #[.int 44, .int 0]) ∧
      (gauges.perform takeReadings).2.Maintains (fun machine => machine.heap.ArraysTyped)
        fun before after => before.heap.KeepsArrays after.heap :=
  ⟨hosted_gauges, reached_gauges, gauges_facts.2.2,
    arrays_maintained hosted_gauges reached_gauges⟩

/-- **Static fields hold values of their types, or their own constants as they are**, at every
moment of every session. -/
theorem statics_maintained (hosted : Hosted options) (reached : Reached options session) :
    session.Maintains (fun machine => machine.StaticsStored session.setup.sources)
      fun _ _ => True :=
  reached.maintains hosted (fun _ sound => sound.staticsStored) fun _ _ _ => trivial

theorem statics_maintained_gauges :
    Hosted gaugeOptions ∧ Reached gaugeOptions (gauges.perform takeReadings).2 ∧
      (gauges.perform takeReadings).2.Maintains
        (fun machine => machine.StaticsStored (gauges.perform takeReadings).2.setup.sources)
        fun _ _ => True :=
  ⟨hosted_gauges, reached_gauges, statics_maintained hosted_gauges reached_gauges⟩

end Session.Reached

/-- **A byte that starts with a constant need not be one**: the limit of gauges is 300 once they are
initialized. -/
theorem limit_of_gauges :
    ∃ c field, Session.Reached gaugeOptions (gauges.perform takeReadings).2 ∧
      Defines (gauges.perform takeReadings).2.setup.sources c ∧ field ∈ c.staticFields ∧
      field.type = .byte ∧
      (Exec.stateIn c (gauges.perform takeReadings).2.machine).statics[field.slot]? =
        some (.int 300) ∧
      ¬ FieldType.byte.Holds (.int 300) := by
  obtain ⟨c, found, shown⟩ := Option.map_eq_some_iff.mp gauges_facts.2.1
  obtain ⟨fields, statics⟩ := Prod.mk.inj shown
  have sound := (reached_gauges.sound hosted_gauges).1
  obtain ⟨-, defined, -⟩ := sound.loaded _ _ found
  have listed : (FieldType.byte, 0) ∈ c.staticFields.map fun field => (field.type, field.slot) :=
    fields ▸ List.mem_cons_self
  obtain ⟨field, member, same⟩ := List.mem_map.mp listed
  obtain ⟨type, slot⟩ := Prod.mk.inj same
  refine ⟨c, field, reached_gauges, defined, member, type, ?_, fun holds => ?_⟩
  · rw [statics, slot]
    rfl
  · exact absurd (holds.ranges 300 (-128) 127 rfl rfl).2 (by decide)

end JavaMachine
