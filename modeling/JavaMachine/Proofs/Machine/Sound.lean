import JavaMachine.Proofs.Machine.Phases
import JavaMachine.Proofs.Machine.Provided

/-! # Sound machines

The elements of an array are of the type that its class says, whatever is done with the array under
another type: numbers are of the kind and in the range of the elements, and objects of a class that
is assignable to that of the elements. A static field holds a value of its type, or else the very
constant that it starts with. A machine is sound if this holds of all arrays on its heap and of all
static fields, if its classes are those that the sources define, if its instances have the slots
that their classes say, and if its links lead where the constants do. -/

namespace JavaMachine

open Loader (Defines)

/-! ## Heaps -/

namespace HeapObject

/-- What of an object stays for ever: its class, and the type and the number of its elements if it is
an array. -/
def shape (object : HeapObject) : LinkedClass × Option (FieldType × Nat) :=
  (object.type, object.array?.map fun elements => (elements.1, elements.2.size))

theorem shape_set (object : HeapObject) (slot : Nat) (value : Value) :
    (object.set slot value).shape = object.shape := by
  obtain ⟨type, body⟩ := object
  cases body with
  | fields slots => rfl
  | text content => rfl
  | elements component slots =>
    change (type, some (component, (slots.setIfInBounds slot value).size)) = _
    rw [Array.size_setIfInBounds]
    rfl

end HeapObject

namespace Heap

variable {heap before between after : Heap} {object : HeapObject} {ref : Ref} {slot : Nat}
  {value : Value}

theorem get_add_of_lt (old : ref < heap.objects.size) : (heap.add object).2.get ref = heap.get ref := by
  simp only [add, get, Array.getD_eq_getD_getElem?]
  rw [Array.getElem?_push_lt old, Array.getElem?_eq_getElem old]

theorem get_add_self : (heap.add object).2.get heap.objects.size = object := by
  simp only [add, get, Array.getD_eq_getD_getElem?]
  rw [Array.getElem?_push_size, Option.getD_some]

theorem size_add : (heap.add object).2.objects.size = heap.objects.size + 1 :=
  Array.size_push ..

theorem size_set : (heap.set ref slot value).objects.size = heap.objects.size :=
  Array.size_modify ..

theorem get_set_self (old : ref < heap.objects.size) :
    (heap.set ref slot value).get ref = (heap.get ref).set slot value := by
  simp only [set, get, Array.getD_eq_getD_getElem?]
  rw [Array.getElem?_modify, if_pos rfl, Array.getElem?_eq_getElem old]
  rfl

theorem get_set_of_ne {other : Ref} (differ : other ≠ ref) :
    (heap.set ref slot value).get other = heap.get other := by
  simp only [set, get, Array.getD_eq_getD_getElem?]
  rw [Array.getElem?_modify, if_neg (Ne.symm differ)]

theorem get_of_not_lt (dangling : ¬ ref < heap.objects.size) : heap.get ref = default := by
  simp only [get, Array.getD_eq_getD_getElem?]
  rw [Array.getElem?_eq_none (Nat.le_of_not_lt dangling)]
  rfl

/-- Objects are added, and none changes its shape. -/
structure Grows (before after : Heap) : Prop where
  size : before.objects.size ≤ after.objects.size
  shape (ref : Ref) (old : ref < before.objects.size) :
    (after.get ref).shape = (before.get ref).shape

theorem Grows.refl (heap : Heap) : heap.Grows heap :=
  ⟨Nat.le_refl _, fun _ _ => rfl⟩

theorem Grows.trans (near : before.Grows between) (far : between.Grows after) :
    before.Grows after where
  size := near.size.trans far.size
  shape ref old := (far.shape ref (old.trans_le near.size)).trans (near.shape ref old)

theorem grows_add (heap : Heap) (object : HeapObject) : heap.Grows (heap.add object).2 where
  size := by
    rw [size_add]
    exact Nat.le_succ _
  shape ref old := by rw [get_add_of_lt old]

theorem grows_set (heap : Heap) (ref : Ref) (slot : Nat) (value : Value) :
    heap.Grows (heap.set ref slot value) where
  size := by rw [size_set]
  shape other old := by
    by_cases same : other = ref
    · subst same
      rw [get_set_self old, HeapObject.shape_set]
    · rw [get_set_of_ne same]

/-- A value can be an element of an array, given the type and the class of the elements. -/
structure Fits (heap : Heap) (component : FieldType) (element : Option LinkedClass) (value : Value) :
    Prop where
  holds : component.Holds value
  assignable (ref : Ref) (points : value = .reference (some ref)) :
    ref < heap.objects.size ∧
      ∃ expected, element = some expected ∧ (heap.get ref).type.isAssignableTo expected = true

theorem Fits.grows {component : FieldType} {element : Option LinkedClass}
    (fits : before.Fits component element value) (grows : before.Grows after) :
    after.Fits component element value where
  holds := fits.holds
  assignable ref points := by
    obtain ⟨old, expected, contained, assignable⟩ := fits.assignable ref points
    refine ⟨old.trans_le grows.size, expected, contained, ?_⟩
    have same : (after.get ref).type = (before.get ref).type := congrArg Prod.fst (grows.shape ref old)
    rw [same]
    exact assignable

/-- What a value points to is an object of a class that is assignable to that of the elements of an
array. -/
def Assigns (heap : Heap) (element : Option LinkedClass) (value : Value) : Prop :=
  ∀ ref expected, value = .reference (some ref) → element = some expected →
    ref < heap.objects.size ∧ (heap.get ref).type.isAssignableTo expected = true

/-- A check of the object of a reference shows as much: without an object it fails. -/
theorem assigns_of_passed {sources : List ClassSource} {c expected : LinkedClass}
    (provided : Provided sources c) (contained : c.element = some expected)
    (passed : (heap.get ref).type.isAssignableTo expected = true) :
    heap.Assigns c.element (.reference (some ref)) := by
  intro other inner points contained'
  cases points
  cases contained.symm.trans contained'
  refine ⟨by_contra fun dangling => ?_, passed⟩
  rw [get_of_not_lt dangling] at passed
  have named := (provided.defined contained).name_element_ne contained
  cases (LinkedClass.not_assignable_default named).symm.trans passed

theorem Assigns.grows {element : Option LinkedClass} (assigns : before.Assigns element value)
    (grows : before.Grows after) : after.Assigns element value := by
  intro ref expected points contained
  obtain ⟨old, assignable⟩ := assigns ref expected points contained
  have same : (after.get ref).type = (before.get ref).type := congrArg Prod.fst (grows.shape ref old)
  exact ⟨old.trans_le grows.size, same ▸ assignable⟩

theorem Assigns.narrow {element : Option LinkedClass} (assigns : heap.Assigns element value)
    (type : FieldType) : heap.Assigns element (.narrow type value) :=
  fun ref expected points => assigns ref expected (Value.eq_reference_of_narrow points)

/-- A value of the kind and in the range of the elements fits if it is assignable: arrays of
references have a class of elements. -/
theorem Assigns.fits {sources : List ClassSource} {c : LinkedClass} {component : FieldType}
    (assigns : heap.Assigns c.element value) (provided : Provided sources c)
    (typed : c.component = some component) (holds : component.Holds value) :
    heap.Fits component c.element value where
  holds := holds
  assignable ref points := by
    have defined : Loader.Defines sources c := by
      rcases provided with defined | rfl
      · exact defined
      · rw [LinkedClass.component_default] at typed
        cases typed
    have reference : component.isReference = true := by
      have kind := holds.kind
      rw [points] at kind
      cases component <;> first | rfl | cases kind
    obtain ⟨expected, contained⟩ := defined.exists_element typed reference
    obtain ⟨old, assignable⟩ := assigns ref expected points contained
    exact ⟨old, expected, contained, assignable⟩

/-- Where an array was seen there is still one of its shape. -/
def Shows (heap : Heap) (ref : Ref) (object : HeapObject) : Prop :=
  object.array?.isSome → ref < heap.objects.size ∧ (heap.get ref).shape = object.shape

theorem shows_get (heap : Heap) (ref : Ref) : heap.Shows ref (heap.get ref) := by
  intro array
  refine ⟨by_contra fun dangling => ?_, rfl⟩
  rw [get_of_not_lt dangling] at array
  cases array

theorem Shows.grows (shows : before.Shows ref object) (grows : before.Grows after) :
    after.Shows ref object := by
  intro array
  obtain ⟨old, same⟩ := shows array
  exact ⟨old.trans_le grows.size, (grows.shape ref old).trans same⟩

/-- What fits into the array that was seen fits into the one that is there. -/
theorem Shows.fits {component : FieldType} {slots : Array Value} (shows : before.Shows ref object)
    (array : object.array? = some (component, slots))
    (fits : before.Fits component object.type.element value) (component' : FieldType)
    (slots' : Array Value) (array' : (before.get ref).array? = some (component', slots')) :
    before.Fits component' (before.get ref).type.element value := by
  obtain ⟨-, same⟩ := shows (array ▸ rfl)
  have types : (before.get ref).type = object.type := congrArg Prod.fst same
  have bodies := congrArg Prod.snd same
  simp only [HeapObject.shape, array, array', Option.map_some, Option.some.injEq,
    Prod.mk.injEq] at bodies
  rw [types, bodies.1]
  exact fits

theorem fits_zero (heap : Heap) (component : FieldType) (element : Option LinkedClass) :
    heap.Fits component element (.zero component) where
  holds := Value.holds_zero component
  assignable ref points := by cases component <;> cases points

end Heap

/-- What is known of a sound object whatever else is on the heap: its class is provided; an array is
of an array class, and its elements are of the type that the class says; an instance has the slots
that its class says; and only strings have a text. -/
structure HeapObject.Typed (sources : List ClassSource) (object : HeapObject) : Prop where
  provided : Provided sources object.type
  component (component : FieldType) (slots : Array Value)
    (array : object.array? = some (component, slots)) : object.type.component = some component
  elements (component : FieldType) (slots : Array Value)
    (array : object.array? = some (component, slots)) : ∀ value ∈ slots, component.Holds value
  fields (slots : Array Value) (plain : object.body = .fields slots) :
    slots.size = object.type.instanceFields.length
  text (content : String) (string : object.body = .text content) :
    object.type.name = ClassName.string

/-- An object with elements that fit if it is an array. -/
structure HeapObject.Sound (sources : List ClassSource) (heap : Heap) (object : HeapObject) :
    Prop extends object.Typed sources where
  fits (component : FieldType) (slots : Array Value)
    (array : object.array? = some (component, slots)) :
    ∀ value ∈ slots, heap.Fits component object.type.element value

/-- A heap of sound objects. -/
def Heap.Sound (sources : List ClassSource) (heap : Heap) : Prop :=
  ∀ ref < heap.objects.size, (heap.get ref).Sound sources heap

section Sound

variable {sources : List ClassSource} {heap before after : Heap} {object : HeapObject} {ref : Ref}
  {slot : Nat} {value : Value}

theorem HeapObject.Sound.grows (sound : object.Sound sources before) (grows : before.Grows after) :
    object.Sound sources after where
  toTyped := sound.toTyped
  fits component slots array value member := (sound.fits component slots array value member).grows grows

/-- An object that is no array is sound if it is typed. -/
theorem HeapObject.Typed.sound (typed : object.Typed sources) (plain : object.array? = none) :
    object.Sound sources heap where
  toTyped := typed
  fits component slots array := by
    rw [plain] at array
    cases array

/-- An array of elements that fit is sound. -/
theorem HeapObject.sound_of_fits {c : LinkedClass} {component : FieldType} {elements : Array Value}
    (provided : Provided sources c) (typed : c.component = some component)
    (fits : ∀ value ∈ elements, heap.Fits component c.element value) :
    (ofElements c component elements).Sound sources heap where
  provided := provided
  component _ _ array := by
    cases array
    exact typed
  elements _ _ array value member := by
    cases array
    exact (fits value member).holds
  fields _ plain := by cases plain
  text _ string := by cases string
  fits _ _ array := by
    cases array
    exact fits

theorem HeapObject.array?_of_field? (present : (object.field? slot).isSome) :
    object.array? = none := by
  obtain ⟨type, body⟩ := object
  cases body with
  | fields slots => rfl
  | elements component slots => cases present
  | text content => rfl

theorem HeapObject.typed_fields {c : LinkedClass} {slots : Array Value}
    (provided : Provided sources c) (size : slots.size = c.instanceFields.length) :
    (⟨c, .fields slots⟩ : HeapObject).Typed sources where
  provided := provided
  component _ _ array := by cases array
  elements _ _ array := by cases array
  fields _ plain := by
    cases plain
    exact size
  text _ string := by cases string

theorem HeapObject.typed_text {c : LinkedClass} (provided : Provided sources c)
    (named : c.name = ClassName.string) (content : String) :
    (⟨c, .text content⟩ : HeapObject).Typed sources where
  provided := provided
  component _ _ array := by cases array
  elements _ _ array := by cases array
  fields _ plain := by cases plain
  text _ _ := named

/-- A new instance has a zero for each field, and a new string no text yet. -/
theorem HeapObject.sound_ofClass {c : LinkedClass} (provided : Provided sources c) :
    (ofClass c).Sound sources heap := by
  unfold ofClass
  split
  · next named => exact (typed_text provided (beq_iff_eq.mp named) "").sound rfl
  · refine (typed_fields provided ?_).sound rfl
    rw [List.size_toArray, List.length_map]

/-- Zeros fit into every array. -/
theorem HeapObject.sound_zeros {c : LinkedClass} {component : FieldType}
    (provided : Provided sources c) (typed : c.component = some component) (length : Nat) :
    (ofElements c component (Array.replicate length (.zero component))).Sound sources heap := by
  refine sound_of_fits provided typed fun value member => ?_
  obtain ⟨-, rfl⟩ := Array.mem_replicate.mp member
  exact heap.fits_zero component c.element

theorem Heap.Sound.typed (sound : heap.Sound sources) (ref : Ref) :
    (heap.get ref).Typed sources := by
  by_cases old : ref < heap.objects.size
  · exact (sound ref old).toTyped
  · rw [Heap.get_of_not_lt old]
    exact HeapObject.typed_fields (.inr rfl) rfl

theorem Heap.Sound.add (sound : heap.Sound sources) (new : object.Sound sources heap) :
    (heap.add object).2.Sound sources := by
  have grows := heap.grows_add object
  intro ref within
  rw [Heap.size_add] at within
  rcases Nat.lt_succ_iff_lt_or_eq.mp within with old | rfl
  · rw [Heap.get_add_of_lt old]
    exact (sound ref old).grows grows
  · rw [Heap.get_add_self]
    exact new.grows grows

/-- A slot of an array may be changed to what fits, and a slot of anything else to whatever. -/
theorem Heap.Sound.set (sound : heap.Sound sources)
    (fits : ∀ component slots, (heap.get ref).array? = some (component, slots) →
      heap.Fits component (heap.get ref).type.element value) :
    (heap.set ref slot value).Sound sources := by
  have grows := heap.grows_set ref slot value
  intro other within
  rw [Heap.size_set] at within
  have before := sound other within
  by_cases same : other = ref
  · subst same
    rw [Heap.get_set_self within]
    generalize heap.get other = object at before fits
    obtain ⟨type, body⟩ := object
    cases body with
    | fields slots =>
      refine (HeapObject.typed_fields before.provided ?_).sound rfl
      rw [Array.size_setIfInBounds]
      exact before.fields slots rfl
    | text content =>
      exact (HeapObject.typed_text before.provided (before.text content rfl) content).sound rfl
    | elements component slots =>
      refine HeapObject.sound_of_fits before.provided (before.component component slots rfl)
        fun each member => Heap.Fits.grows ?_ grows
      rcases Array.mem_or_eq_of_mem_setIfInBounds member with member | rfl
      · exact before.fits component slots rfl each member
      · exact fits component slots rfl
  · rw [Heap.get_set_of_ne same]
    exact before.grows grows

end Sound

/-! ## Classes -/

/-- The value of a constant that a static field starts with, as it is put into the field. -/
def FieldConstant.Gives : FieldConstant → Value → Prop
  | .int number, value => value = .int number
  | .long number, value => value = .long number
  | .float bits, value => value = .float bits
  | .double bits, value => value = .double bits
  | .string _, value => ∃ ref, value = .reference (some ref)

/-- What a static field holds: a value of its type, or the constant it starts with as it is. -/
def Field.Stores (field : Field) (value : Value) : Prop :=
  field.type.Holds value ∨ ∃ constant, field.constant = some constant ∧ constant.Gives value

/-- The part of a class that changes, as the class says: there is a slot for each static field, each
with a value that the field may hold, and every link is one that its constant resolves to. -/
structure ClassState.Sound (sources : List ClassSource) (c : LinkedClass) (state : ClassState) :
    Prop where
  size : state.statics.size = c.staticFields.length
  statics (field : Field) (member : field ∈ c.staticFields) (value : Value)
    (held : state.statics[field.slot]? = some value) : field.Stores value
  links (index : UInt16) (link : Linkage) (linked : (index, link) ∈ state.links) :
    Resolves sources c index link

namespace ClassState.Sound

variable {sources : List ClassSource} {c : LinkedClass} {state : ClassState}

theorem initial (defined : Defines sources c) : (ClassState.initial c).Sound sources c where
  size := by rw [ClassState.initial, List.size_toArray, List.length_map]
  statics field member value held := by
    obtain ⟨position, present⟩ := List.getElem?_of_mem member
    rw [defined.slot_staticField present, ClassState.initial, List.getElem?_toArray,
      List.getElem?_map, present] at held
    cases held
    exact .inl (Value.holds_zero field.type)
  links index link linked := by cases linked

theorem setPhase (sound : state.Sound sources c) (phase : InitPhase) :
    ({ state with phase } : ClassState).Sound sources c :=
  ⟨sound.size, sound.statics, sound.links⟩

/-- A slot is changed to what its field may hold. -/
theorem setStatic (sound : state.Sound sources c) (defined : Defines sources c) {field : Field}
    (member : field ∈ c.staticFields) {value : Value} (stores : field.Stores value) :
    ({ state with statics := state.statics.setIfInBounds field.slot value } : ClassState).Sound
      sources c where
  size := (Array.size_setIfInBounds ..).trans sound.size
  statics other otherMember held present := by
    rw [Array.getElem?_setIfInBounds] at present
    split at present
    · next same =>
      obtain rfl := defined.staticField_unique otherMember member same
      split at present
      · cases present
        exact stores
      · cases present
    · exact sound.statics other otherMember held present
  links := sound.links

theorem setLink (sound : state.Sound sources c) {index : UInt16} {link : Linkage}
    (resolves : Resolves sources c index link) :
    ({ state with links := (index, link) :: state.links } : ClassState).Sound sources c where
  size := sound.size
  statics := sound.statics
  links other found linked := by
    rcases List.mem_cons.mp linked with same | linked
    · cases same
      exact resolves
    · exact sound.links other found linked

end ClassState.Sound

/-- The classes that the linked constants of a class name are loaded. -/
def ClassState.Loads (c : LinkedClass) (state : ClassState) (loaded : LoadedClasses) : Prop :=
  ∀ index link found name, (index, link) ∈ state.links → c.constant? index = some found →
    found.className? = some name → ∃ d, loaded.lookup name = some d

namespace ClassState.Loads

variable {c : LinkedClass} {state : ClassState} {loaded : LoadedClasses}

theorem grows {after : LoadedClasses} {scope : String → Prop} (loads : state.Loads c loaded)
    (grows : Loader.Grows scope loaded after) : state.Loads c after := by
  intro index link found name linked constant names
  obtain ⟨d, known⟩ := loads index link found name linked constant names
  exact ⟨d, grows.lookup known⟩

theorem setLink (loads : state.Loads c loaded) {index : UInt16} {found : Constant} {name : String}
    (constant : c.constant? index = some found) (names : found.className? = some name)
    {d : LinkedClass} (known : loaded.lookup name = some d) (link : Linkage) :
    ({ state with links := (index, link) :: state.links } : ClassState).Loads c loaded := by
  intro other linked found' name' member constant' names'
  rcases List.mem_cons.mp member with same | member
  · cases same
    cases constant.symm.trans constant'
    cases names.symm.trans names'
    exact ⟨d, known⟩
  · exact loads other linked found' name' member constant' names'

end ClassState.Loads

/-! ## Machines -/

/-- The classes of a machine are those that the sources define, its objects and the states of its
classes are sound, and the classes that linked constants name are loaded. -/
structure Machine.Sound (sources : List ClassSource) (machine : Machine) : Prop where
  loaded : Loader.Sound sources machine.loaded
  heap : machine.heap.Sound sources
  classes (c : LinkedClass) (defined : Defines sources c) :
    (Exec.stateIn c machine).Sound sources c
  links (c : LinkedClass) (defined : Defines sources c) :
    (Exec.stateIn c machine).Loads c machine.loaded

end JavaMachine
