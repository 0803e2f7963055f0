import JavaMachine.Proofs.Execution.Decision
import JavaMachine.Proofs.Execution.Throwables

/-! # Copies between arrays

`System.arraycopy` copies a range of elements as it was before the copy, also within one array
(`Heap.Copies`). What it checks beforehand, it checks in a fixed order, and what it then throws leaves
every array as it was; only an element that cannot be stored is found out when all those before it
have been copied. All of this is put together in `Native.SystemMethods.arraycopy_copiesOrThrows`. -/

namespace JavaMachine

open Loader (Defines)
open Operation (bind_of_ok bind_of_error)

/-- Elements of the one type can be copied into arrays of the other type, as far as the types go. -/
def FieldType.CopiesInto (source target : FieldType) : Prop :=
  source = target ∨ source.isReference = true ∧ target.isReference = true

/-! ## Storing a row of values -/

namespace HeapObject

variable {object : HeapObject} {component : FieldType} {slots : Array Value}

theorem element?_of_array (array : object.array? = some (component, slots)) (index : Nat) :
    object.element? index = slots[index]? := by
  unfold element?
  rw [array]

theorem array?_set (array : object.array? = some (component, slots)) (slot : Nat) (value : Value) :
    (object.set slot value).array? = some (component, slots.setIfInBounds slot value) := by
  obtain ⟨type, body⟩ := object
  cases body <;> cases array
  rfl

/-- A slot that is set holds the value, and the others what they held. -/
theorem element?_set (slot : Nat) (value : Value) (index : Int) :
    (object.set slot value).element? index =
      if index = slot then (object.element? index).map fun _ => value else object.element? index := by
  obtain ⟨type, body⟩ := object
  cases body with
  | fields slots =>
    change none = _
    split <;> rfl
  | text content =>
    change none = _
    split <;> rfl
  | elements component slots =>
    cases index with
    | negSucc index =>
      change none = _
      split <;> rfl
    | ofNat index =>
      change (slots.setIfInBounds slot value)[index]? = if (index : Int) = slot then slots[index]?.map _
        else slots[index]?
      rw [Array.getElem?_setIfInBounds]
      by_cases same : slot = index
      · subst same
        rw [if_pos rfl, if_pos rfl]
        by_cases within : slot < slots.size
        · rw [if_pos within, Array.getElem?_eq_getElem within]
          rfl
        · rw [if_neg within, Array.getElem?_eq_none (Nat.le_of_not_lt within)]
          rfl
      · rw [if_neg same, if_neg (by omega)]

end HeapObject

namespace Heap

variable {heap before after : Heap} {source target ref : Ref} {position : Nat} {values : List Value}

/-- An object keeps its class, whatever is stored. -/
theorem type_get_set (heap : Heap) (target : Ref) (slot : Nat) (value : Value) (ref : Ref) :
    ((heap.set target slot value).get ref).type = (heap.get ref).type := by
  by_cases old : ref < heap.objects.size
  · exact congrArg Prod.fst ((heap.grows_set target slot value).shape ref old)
  · rw [get_of_not_lt old, get_of_not_lt (by rwa [size_set])]

/-- The heap in which values are stored in a row of slots. -/
def storing (heap : Heap) (target : Ref) : (position : Nat) → List Value → Heap
  | _, [] => heap
  | position, value :: rest => (heap.set target position value).storing target (position + 1) rest

/-- What is there after values have been stored in a row of slots. -/
structure Stores (before : Heap) (target : Ref) (position : Nat) (values : List Value)
    (after : Heap) : Prop where
  size : after.objects.size = before.objects.size
  others (ref : Ref) (other : ref ≠ target) : after.get ref = before.get ref
  shape : (after.get target).shape = (before.get target).shape
  stored (offset : Nat) (within : offset < values.length) :
    (after.get target).element? (position + offset : Nat) =
      ((before.get target).element? (position + offset : Nat)).bind fun _ => values[offset]?
  kept (index : Int) (outside : index < position ∨ position + values.length ≤ index) :
    (after.get target).element? index = (before.get target).element? index

theorem stores_storing (present : target < heap.objects.size) (position : Nat) (values : List Value) :
    heap.Stores target position values (heap.storing target position values) := by
  induction values generalizing heap position with
  | nil => exact ⟨rfl, fun _ _ => rfl, rfl, fun _ => nofun, fun _ _ => rfl⟩
  | cons value rest ih =>
    have stores := @ih (heap.set target position value) (by rwa [size_set]) (position + 1)
    refine ⟨stores.size.trans size_set, fun ref other => ?_, ?_, fun offset within => ?_,
      fun index outside => ?_⟩
    · exact (stores.others ref other).trans (get_set_of_ne other)
    · refine stores.shape.trans ?_
      rw [get_set_self present, HeapObject.shape_set]
    · cases offset with
      | zero =>
        have kept := stores.kept (position + 0 : Nat) (.inl (by omega))
        refine kept.trans ?_
        rw [get_set_self present, HeapObject.element?_set, if_pos (by omega)]
        cases (heap.get target).element? (position + 0 : Nat) <;> rfl
      | succ offset =>
        have stored := stores.stored offset (Nat.lt_of_succ_lt_succ within)
        rw [get_set_self present, HeapObject.element?_set, if_neg (by omega), Nat.add_assoc,
          Nat.add_comm 1] at stored
        exact stored
    · rw [List.length_cons] at outside
      refine (stores.kept index (by omega)).trans ?_
      rw [get_set_self present, HeapObject.element?_set, if_neg (by omega)]

/-- A value can be stored where elements are of a class: it is no object, or one of a class that is
assignable to theirs. -/
def Admits (heap : Heap) (element : Option LinkedClass) (value : Value) : Prop :=
  ∀ ref expected, value = .reference (some ref) → element = some expected →
    (heap.get ref).type.isAssignableTo expected = true

theorem type_get_storing (heap : Heap) (target : Ref) (position : Nat) (values : List Value)
    (ref : Ref) : ((heap.storing target position values).get ref).type = (heap.get ref).type := by
  induction values generalizing heap position with
  | nil => rfl
  | cons value rest ih => exact (ih _ _).trans (type_get_set heap target position value ref)

theorem Admits.set {element : Option LinkedClass} {value : Value}
    (admits : heap.Admits element value) (target : Ref) (slot : Nat) (other : Value) :
    (heap.set target slot other).Admits element value := by
  intro ref expected points contained
  rw [type_get_set]
  exact admits ref expected points contained

/-- Values of the type and the class of the elements may be stored in a row. -/
theorem Sound.storing {sources : List ClassSource} {component : FieldType} {slots : Array Value}
    (sound : heap.Sound sources) (array : (heap.get target).array? = some (component, slots))
    (holds : ∀ value ∈ values, component.Holds value)
    (admits : ∀ value ∈ values, heap.Admits (heap.get target).type.element value) :
    (heap.storing target position values).Sound sources ∧
      heap.Grows (heap.storing target position values) := by
  induction values generalizing heap position slots with
  | nil => exact ⟨sound, .refl heap⟩
  | cons value rest ih =>
    have present : target < heap.objects.size := (heap.shows_get target (array ▸ rfl)).1
    have typed := sound.typed target
    have assigns : heap.Assigns (heap.get target).type.element value := by
      intro ref expected points contained
      subst points
      exact assigns_of_passed typed.provided contained
        (admits _ List.mem_cons_self ref expected rfl contained) ref expected rfl contained
    have fits : heap.Fits component (heap.get target).type.element value :=
      assigns.fits typed.provided (typed.component component slots array)
        (holds value List.mem_cons_self)
    have stored : (heap.set target position value).Sound sources := sound.set fun component' slots' same => by
      cases array.symm.trans same
      exact fits
    have there : ((heap.set target position value).get target).array? =
        some (component, slots.setIfInBounds position value) := by
      rw [get_set_self present]
      exact HeapObject.array?_set array position value
    obtain ⟨soundAfter, grows⟩ := ih stored there
      (fun other member => holds other (List.mem_cons_of_mem _ member)) fun other member => by
        rw [type_get_set]
        exact (admits other (List.mem_cons_of_mem _ member)).set target position value
    exact ⟨soundAfter, (heap.grows_set target position value).trans grows⟩

end Heap

namespace Native.SystemMethods

variable {services : Services} {machine : Machine} {target : Ref} {c : LinkedClass}

theorem checkAssignable_of_admits {value : Value} (admits : machine.heap.Admits c.element value) :
    checkAssignable c value services machine = .ok () machine := by
  by_cases points : ∃ ref expected, value = .reference (some ref) ∧ c.element = some expected
  · obtain ⟨ref, expected, rfl, contained⟩ := points
    rw [checkAssignable_eq contained, if_pos (admits ref expected rfl contained)]
  · cases value with
    | reference reference =>
      cases reference with
      | none => rfl
      | some ref =>
        cases contained : c.element with
        | none =>
          unfold checkAssignable
          rw [contained]
          rfl
        | some expected => exact absurd ⟨ref, expected, rfl, contained⟩ points
    | _ => rfl

theorem checkAssignable_throws (builtin : ClassSource.StartsBuiltin services.sources)
    (sound : machine.Sound services.sources) {value : Value}
    (unfit : ¬ machine.heap.Admits c.element value) :
    ∃ message, Exec.Throws machine ClassName.arrayStoreException (some message)
      (checkAssignable c value services machine) := by
  simp only [Heap.Admits, not_forall] at unfit
  obtain ⟨ref, expected, rfl, contained, unfit⟩ := unfit
  rw [checkAssignable_eq contained, if_neg unfit]
  exact ⟨_, Exec.throwNew_throws builtin sound (by decide) _⟩

/-- Values that can be stored are stored, one after the other. -/
theorem storeAll_append {front : List Value}
    (admits : ∀ value ∈ front, machine.heap.Admits c.element value) (position : Nat)
    (rest : List Value) :
    storeAll target c position (front ++ rest) services machine =
      storeAll target c (position + front.length) rest services
        { machine with heap := machine.heap.storing target position front } := by
  induction front generalizing machine position with
  | nil => rfl
  | cons value front ih =>
    have set : Exec.setSlot target position value services machine =
        .ok () { machine with heap := machine.heap.set target position value } := rfl
    rw [List.cons_append, storeAll,
      bind_of_ok (checkAssignable_of_admits (admits value List.mem_cons_self)), bind_of_ok set,
      @ih { machine with heap := machine.heap.set target position value }
        (fun other member => (admits other (List.mem_cons_of_mem _ member)).set target position value),
      List.length_cons, Nat.add_comm front.length, Nat.add_assoc]
    rfl

/-! ## What is checked before -/

section Checks

variable (builtin : ClassSource.StartsBuiltin services.sources)
  (sound : machine.Sound services.sources) {sourceType targetType : FieldType}
  {sourceSize targetSize : Nat} {sourceStart targetStart count : Int}

theorem checkComponents_of_copiesInto (copies : sourceType.CopiesInto targetType) :
    checkComponents sourceType targetType services machine = .ok () machine := by
  have passed : ¬ ((!sourceType.isReference || !targetType.isReference) &&
      sourceType ≠ targetType) = true := by
    rcases copies with same | ⟨source, target⟩
    · simp [same]
    · simp [source, target]
  rw [checkComponents, if_neg passed]
  rfl

include builtin sound in
theorem checkComponents_throws (differ : ¬ sourceType.CopiesInto targetType) :
    ∃ message, Exec.Throws machine ClassName.arrayStoreException (some message)
      (checkComponents sourceType targetType services machine) := by
  have found : ((!sourceType.isReference || !targetType.isReference) &&
      sourceType ≠ targetType) = true := by
    simp only [FieldType.CopiesInto, not_or, not_and, Bool.not_eq_true] at differ
    simp only [ne_eq, decide_not, Bool.and_eq_true, Bool.or_eq_true, Bool.not_eq_eq_eq_not,
      Bool.not_true, decide_eq_false_iff_not]
    refine ⟨?_, differ.1⟩
    cases source : sourceType.isReference with
    | false => exact .inl rfl
    | true => exact .inr (differ.2 source)
  rw [checkComponents, if_pos found]
  exact ⟨_, Exec.throwNew_throws builtin sound (by decide) _⟩

/-- Both ranges of so many elements are within their arrays. -/
def Within (sourceSize targetSize : Nat) (sourceStart targetStart count : Int) : Prop :=
  0 ≤ sourceStart ∧ 0 ≤ targetStart ∧ 0 ≤ count ∧ sourceStart + count ≤ sourceSize ∧
    targetStart + count ≤ targetSize

theorem checkRange_of_within
    (within : Within sourceSize targetSize sourceStart targetStart count) :
    checkRange sourceSize targetSize sourceStart targetStart count services machine =
      .ok () machine := by
  obtain ⟨source, target, counted, sourceEnd, targetEnd⟩ := within
  rw [checkRange, if_neg (by omega), if_neg (by omega), if_neg (by omega)]
  rfl

include builtin sound in
theorem checkRange_throws
    (outside : ¬ Within sourceSize targetSize sourceStart targetStart count) :
    ∃ message, Exec.Throws machine ClassName.arrayIndexOutOfBoundsException (some message)
      (checkRange sourceSize targetSize sourceStart targetStart count services machine) := by
  have throws (text : String) : Exec.Throws machine ClassName.arrayIndexOutOfBoundsException
      (some ("arraycopy: " ++ text)) (checkRange.outside text services machine) :=
    Exec.throwNew_throws builtin sound (by decide) _
  unfold checkRange
  by_cases negative : sourceStart < 0 ∨ targetStart < 0 ∨ count < 0
  · rw [if_pos negative]
    exact ⟨_, (throws _).bind _⟩
  rw [if_neg negative]
  by_cases sourceEnd : sourceStart + count > sourceSize
  · rw [if_pos sourceEnd]
    exact ⟨_, (throws _).bind _⟩
  have targetEnd : targetStart + count > targetSize := by
    rw [Within] at outside
    omega
  rw [if_neg sourceEnd, if_pos targetEnd]
  exact ⟨_, throws _⟩

end Checks

end Native.SystemMethods

/-! ## Requests -/

/-- What is to be copied from where to where. -/
structure CopyRequest where
  source : Option Ref
  sourceStart : Int32
  target : Option Ref
  targetStart : Int32
  count : Int32
  deriving DecidableEq, Inhabited

namespace CopyRequest

/-- The arguments of the method. -/
def arguments (request : CopyRequest) : List Value :=
  [.reference request.source, .int request.sourceStart, .reference request.target,
    .int request.targetStart, .int request.count]

/-- The arrays that a request is about. They may be the same. -/
structure Arrays (request : CopyRequest) (heap : Heap) where
  source : Ref
  target : Ref
  sourceType : FieldType
  targetType : FieldType
  elements : Array Value
  replaced : Array Value
  isSource : request.source = some source
  isTarget : request.target = some target
  sourceArray : (heap.get source).array? = some (sourceType, elements)
  targetArray : (heap.get target).array? = some (targetType, replaced)

namespace Arrays

variable {request : CopyRequest} {heap : Heap} (arrays : request.Arrays heap)

/-- Both have elements of the same primitive type, or both hold references. -/
def Match : Prop :=
  arrays.sourceType.CopiesInto arrays.targetType

/-- Both ranges are within the arrays. -/
def Within : Prop :=
  Native.SystemMethods.Within arrays.elements.size arrays.replaced.size request.sourceStart.toInt
    request.targetStart.toInt request.count.toInt

/-- An element that is to be copied, by its number, can be stored in the target. -/
def Admits (offset : Nat) : Prop :=
  ∀ value, arrays.elements[request.sourceStart.toInt.toNat + offset]? = some value →
    heap.Admits (heap.get arrays.target).type.element value

/-- The first of the elements have been copied: each index was one of its array, there is now what was
in the source before, and nothing else has changed. -/
structure Copied (count : Nat) (after : Heap) : Prop where
  size : after.objects.size = heap.objects.size
  others (ref : Ref) (other : ref ≠ arrays.target) : after.get ref = heap.get ref
  shape : (after.get arrays.target).shape = (heap.get arrays.target).shape
  copied (offset : Nat) (within : offset < count) : ∃ value,
    arrays.elements[request.sourceStart.toInt.toNat + offset]? = some value ∧
      (after.get arrays.target).element? (request.targetStart.toInt + offset) = some value
  kept (index : Int)
    (outside : index < request.targetStart.toInt ∨ request.targetStart.toInt + count ≤ index) :
    (after.get arrays.target).element? index = (heap.get arrays.target).element? index

end Arrays

/-- All that is to be copied can be. -/
def Possible (request : CopyRequest) (heap : Heap) : Prop :=
  ∃ arrays : request.Arrays heap, arrays.Match ∧ arrays.Within ∧
    ∀ offset < request.count.toInt.toNat, arrays.Admits offset

/-- What comes of a request: the elements are copied, or something is thrown. What is thrown depends
on the first of the checks that fails. -/
structure CopiesOrThrows (request : CopyRequest) (machine : Machine)
    (result : EStateM.Result Interruption Machine (Option Value)) : Prop where
  missing (absent : request.source = none ∨ request.target = none) :
    Exec.Throws machine ClassName.nullPointerException none result
  noArray (source target : Ref) (isSource : request.source = some source)
    (isTarget : request.target = some target)
    (plain : (machine.heap.get source).array? = none ∨ (machine.heap.get target).array? = none) :
    ∃ message, Exec.Throws machine ClassName.arrayStoreException (some message) result
  differ (arrays : request.Arrays machine.heap) (differ : ¬ arrays.Match) :
    ∃ message, Exec.Throws machine ClassName.arrayStoreException (some message) result
  outside (arrays : request.Arrays machine.heap) (same : arrays.Match) (outside : ¬ arrays.Within) :
    ∃ message, Exec.Throws machine ClassName.arrayIndexOutOfBoundsException (some message) result
  unfit (arrays : request.Arrays machine.heap) (same : arrays.Match) (within : arrays.Within)
    (first : Nat) (counted : first < request.count.toInt.toNat)
    (before : ∀ offset < first, arrays.Admits offset) (unfit : ¬ arrays.Admits first) :
    ∃ heap message, arrays.Copied first heap ∧
      Exec.Throws { machine with heap } ClassName.arrayStoreException (some message) result
  completes (arrays : request.Arrays machine.heap) (same : arrays.Match) (within : arrays.Within)
    (admits : ∀ offset < request.count.toInt.toNat, arrays.Admits offset) :
    ∃ heap, arrays.Copied request.count.toInt.toNat heap ∧ result = .ok none { machine with heap }
  completes_iff : (∃ value after, result = .ok value after) ↔ request.Possible machine.heap
  /-- Sums of 64 bits are exact, whatever the arguments are. -/
  exact_sums (offset : Nat) (counted : offset ≤ request.count.toInt.toNat) :
    (request.sourceStart.toInt64 + .ofNat offset).toInt = request.sourceStart.toInt + offset ∧
      (request.targetStart.toInt64 + .ofNat offset).toInt = request.targetStart.toInt + offset
  /-- An index of an array that has an int as its length is an int. -/
  exact_index (arrays : request.Arrays machine.heap) (within : arrays.Within)
    (short : arrays.replaced.size < 2 ^ 31) (offset : Nat)
    (counted : offset < request.count.toInt.toNat) :
    (Int32.ofInt (request.targetStart.toInt + offset)).toInt = request.targetStart.toInt + offset

/-- The sum of two ints is exact if it is computed with 64 bits. -/
theorem toInt_add_ofNat (start : Int32) {offset : Nat} (small : offset < 2 ^ 31) :
    (start.toInt64 + Int64.ofNat offset).toInt = start.toInt + offset := by
  have low := start.le_toInt
  have high := start.toInt_lt
  have counted : (Int64.ofNat offset).toInt = offset := Int64.toInt_ofNat_of_lt (by omega)
  rw [Int64.toInt_add, Int32.toInt_toInt64, counted]
  exact Int.bmod_eq_of_le (by omega) (by omega)

end CopyRequest

namespace Native.SystemMethods

variable {services : Services} {machine : Machine} {request : CopyRequest}

section Arrays

variable (arrays : request.Arrays machine.heap)

/-- The elements that are to be copied, as they are before. -/
def valuesOf : List Value :=
  (arrays.elements.extract request.sourceStart.toInt.toNat
    (request.sourceStart.toInt.toNat + request.count.toInt.toNat)).toList

theorem getElem?_valuesOf {offset : Nat} (counted : offset < request.count.toInt.toNat) :
    (valuesOf arrays)[offset]? = arrays.elements[request.sourceStart.toInt.toNat + offset]? := by
  rw [valuesOf, Array.getElem?_toList, Array.getElem?_extract]
  split
  · rfl
  · rw [Array.getElem?_eq_none (by omega)]

theorem length_valuesOf (within : arrays.Within) :
    (valuesOf arrays).length = request.count.toInt.toNat := by
  obtain ⟨source, -, counted, sourceEnd, -⟩ := within
  rw [valuesOf, Array.length_toList, Array.size_extract]
  omega

theorem copied_storing (within : arrays.Within) {count : Nat}
    (counted : count ≤ request.count.toInt.toNat) :
    arrays.Copied count (machine.heap.storing arrays.target request.targetStart.toInt.toNat
      ((valuesOf arrays).take count)) := by
  have length : ((valuesOf arrays).take count).length = count := by
    rw [List.length_take_of_le (length_valuesOf arrays within ▸ counted)]
  have values (offset : Nat) (inside : offset < count) : ((valuesOf arrays).take count)[offset]? =
      arrays.elements[request.sourceStart.toInt.toNat + offset]? := by
    rw [List.getElem?_take_of_lt inside, getElem?_valuesOf arrays (inside.trans_le counted)]
  have present : arrays.target < machine.heap.objects.size :=
    (machine.heap.shows_get arrays.target (arrays.targetArray ▸ rfl)).1
  have stores := Heap.stores_storing present request.targetStart.toInt.toNat
    ((valuesOf arrays).take count)
  obtain ⟨source, target, -, sourceEnd, targetEnd⟩ := within
  have start : (request.targetStart.toInt.toNat : Int) = request.targetStart.toInt :=
    Int.toNat_of_nonneg target
  refine ⟨stores.size, stores.others, stores.shape, fun offset inside => ?_, fun index outside => ?_⟩
  · have inSource : request.sourceStart.toInt.toNat + offset < arrays.elements.size := by omega
    have inTarget : request.targetStart.toInt.toNat + offset < arrays.replaced.size := by omega
    have stored := stores.stored offset (length.symm ▸ inside)
    rw [HeapObject.element?_of_array arrays.targetArray, Array.getElem?_eq_getElem inTarget,
      Option.bind_some, values offset inside, Array.getElem?_eq_getElem inSource] at stored
    refine ⟨_, Array.getElem?_eq_getElem inSource, ?_⟩
    rwa [Nat.cast_add, start] at stored
  · refine stores.kept index ?_
    rwa [start, length]

theorem copyElements_of_arrays :
    copyElements arrays.source arrays.target request.sourceStart.toInt request.targetStart.toInt
        request.count.toInt services machine =
      (do
        checkComponents arrays.sourceType arrays.targetType
        checkRange arrays.elements.size arrays.replaced.size request.sourceStart.toInt
          request.targetStart.toInt request.count.toInt
        storeAll arrays.target (machine.heap.get arrays.target).type
          request.targetStart.toInt.toNat (valuesOf arrays) : Exec Unit) services machine := by
  have source : Exec.object arrays.source services machine =
      .ok (machine.heap.get arrays.source) machine := rfl
  have target : Exec.object arrays.target services machine =
      .ok (machine.heap.get arrays.target) machine := rfl
  rw [copyElements, bind_of_ok source, bind_of_ok target, arrays.sourceArray, arrays.targetArray]
  rfl

theorem admits_take {count : Nat} (admits : ∀ offset < count, arrays.Admits offset)
    (counted : count ≤ request.count.toInt.toNat) : ∀ value ∈ (valuesOf arrays).take count,
      machine.heap.Admits (machine.heap.get arrays.target).type.element value := by
  intro value member
  obtain ⟨offset, found⟩ := List.getElem?_of_mem member
  have inside : offset < count :=
    (List.getElem?_eq_some_iff.mp found).1.trans_le (List.length_take_le _ _)
  rw [List.getElem?_take_of_lt inside, getElem?_valuesOf arrays (inside.trans_le counted)] at found
  exact admits offset inside value found

/-- Copying goes as far as all elements can be stored. -/
theorem storeAll_valuesOf {count : Nat} (admits : ∀ offset < count, arrays.Admits offset)
    (counted : count ≤ request.count.toInt.toNat) :
    storeAll arrays.target (machine.heap.get arrays.target).type request.targetStart.toInt.toNat
        (valuesOf arrays) services machine =
      storeAll arrays.target (machine.heap.get arrays.target).type
        (request.targetStart.toInt.toNat + ((valuesOf arrays).take count).length)
        ((valuesOf arrays).drop count) services
        { machine with
          heap := machine.heap.storing arrays.target request.targetStart.toInt.toNat
            ((valuesOf arrays).take count) } := by
  rw [← storeAll_append (admits_take arrays admits counted), List.take_append_drop]

theorem copyElements_of_checked (same : arrays.Match) (within : arrays.Within) :
    copyElements arrays.source arrays.target request.sourceStart.toInt request.targetStart.toInt
        request.count.toInt services machine =
      storeAll arrays.target (machine.heap.get arrays.target).type
        request.targetStart.toInt.toNat (valuesOf arrays) services machine := by
  rw [copyElements_of_arrays, bind_of_ok (checkComponents_of_copiesInto same),
    bind_of_ok (checkRange_of_within within)]

/-- All that can be stored is stored. -/
theorem storeAll_of_admits (within : arrays.Within)
    (admits : ∀ offset < request.count.toInt.toNat, arrays.Admits offset) :
    ∃ heap, arrays.Copied request.count.toInt.toNat heap ∧
      storeAll arrays.target (machine.heap.get arrays.target).type
        request.targetStart.toInt.toNat (valuesOf arrays) services machine =
          .ok () { machine with heap } := by
  refine ⟨_, copied_storing arrays within (Nat.le_refl _), ?_⟩
  rw [storeAll_valuesOf arrays admits (Nat.le_refl _),
    List.drop_eq_nil_of_le (length_valuesOf arrays within).le]
  rfl

/-- A machine stays sound when the first of the elements are copied. -/
theorem sound_storing (sound : machine.Sound services.sources) (same : arrays.Match) {count : Nat}
    (counted : count ≤ request.count.toInt.toNat) (admits : ∀ offset < count, arrays.Admits offset) :
    ({ machine with
        heap := machine.heap.storing arrays.target request.targetStart.toInt.toNat
          ((valuesOf arrays).take count) } : Machine).Sound services.sources := by
  have holds : ∀ value ∈ (valuesOf arrays).take count, arrays.targetType.Holds value := by
    intro value member
    have element : value ∈ arrays.elements := by
      have inside := List.mem_of_mem_take member
      rw [valuesOf, Array.toList_extract] at inside
      exact Array.mem_toList_iff.mp (List.mem_of_mem_drop (List.mem_of_mem_take inside))
    have held := (sound.heap.typed arrays.source).elements _ _ arrays.sourceArray value element
    rcases same with same | ⟨source, target⟩
    · exact same ▸ held
    · exact held.reference source target
  obtain ⟨heap, grows⟩ := sound.heap.storing arrays.targetArray holds
    (admits_take arrays admits counted)
  exact (sound.succeeds_heap heap grows).sound

/-- What cannot be stored is found out when all that is before it has been stored. -/
theorem storeAll_throws (builtin : ClassSource.StartsBuiltin services.sources)
    (sound : machine.Sound services.sources) (same : arrays.Match) (within : arrays.Within)
    {first : Nat} (counted : first < request.count.toInt.toNat)
    (before : ∀ offset < first, arrays.Admits offset) (unfit : ¬ arrays.Admits first) :
    ∃ heap message, arrays.Copied first heap ∧
      Exec.Throws { machine with heap } ClassName.arrayStoreException (some message)
        (storeAll arrays.target (machine.heap.get arrays.target).type
          request.targetStart.toInt.toNat (valuesOf arrays) services machine) := by
  simp only [CopyRequest.Arrays.Admits, not_forall] at unfit
  obtain ⟨value, found, unfit⟩ := unfit
  rw [← getElem?_valuesOf arrays counted] at found
  obtain ⟨present, rfl⟩ := List.getElem?_eq_some_iff.mp found
  let heap := machine.heap.storing arrays.target request.targetStart.toInt.toNat
    ((valuesOf arrays).take first)
  have soundThere : ({ machine with heap } : Machine).Sound services.sources :=
    sound_storing arrays sound same counted.le before
  have unfitThere : ¬ heap.Admits (machine.heap.get arrays.target).type.element
      (valuesOf arrays)[first] := by
    intro admits
    refine unfit fun ref expected points contained => ?_
    rw [← Heap.type_get_storing]
    exact admits ref expected points contained
  obtain ⟨message, throws⟩ := checkAssignable_throws builtin soundThere unfitThere
  refine ⟨heap, message, copied_storing arrays within counted.le, ?_⟩
  rw [storeAll_valuesOf arrays before counted.le, List.drop_eq_getElem_cons present, storeAll]
  exact throws.bind _

end Arrays

/-- How an array is copied once the arguments are read. -/
theorem arraycopy_eq {source target : Ref} (isSource : request.source = some source)
    (isTarget : request.target = some target) (owner : LinkedClass) (method : Method) :
    arraycopy ⟨owner, method, request.arguments⟩ services machine = (do
      copyElements source target request.sourceStart.toInt request.targetStart.toInt
        request.count.toInt
      return none : Exec (Option Value)) services machine := by
  obtain ⟨_, _, _, _, _⟩ := request
  cases isSource
  cases isTarget
  rfl

section Outcomes

variable (builtin : ClassSource.StartsBuiltin services.sources)
  (sound : machine.Sound services.sources) (owner : LinkedClass) (method : Method)

include builtin sound

theorem arraycopy_of_missing (absent : request.source = none ∨ request.target = none) :
    Exec.Throws machine ClassName.nullPointerException none
      (arraycopy ⟨owner, method, request.arguments⟩ services machine) := by
  have throws : Exec.Throws machine ClassName.nullPointerException none
      ((Exec.throwNew ClassName.nullPointerException none : Exec (Option Value)) services machine) :=
    Exec.throwNew_throws builtin sound (by decide) none
  obtain ⟨source, _, target, _, _⟩ := request
  cases source with
  | none => exact throws
  | some source =>
    obtain rfl : target = none := absent.resolve_left nofun
    exact throws

theorem arraycopy_of_noArray {source target : Ref} (isSource : request.source = some source)
    (isTarget : request.target = some target)
    (plain : (machine.heap.get source).array? = none ∨ (machine.heap.get target).array? = none) :
    ∃ message, Exec.Throws machine ClassName.arrayStoreException (some message)
      (arraycopy ⟨owner, method, request.arguments⟩ services machine) := by
  have throws (role : String) (object : HeapObject) :
      ∃ message, Exec.Throws machine ClassName.arrayStoreException (some message)
        ((notArray role object : Exec Unit) services machine) :=
    ⟨_, Exec.throwNew_throws builtin sound (by decide) _⟩
  suffices copying : ∃ message, Exec.Throws machine ClassName.arrayStoreException (some message)
      (copyElements source target request.sourceStart.toInt request.targetStart.toInt
        request.count.toInt services machine) by
    obtain ⟨message, copying⟩ := copying
    rw [arraycopy_eq isSource isTarget]
    exact ⟨message, copying.bind _⟩
  have looked (ref : Ref) : Exec.object ref services machine = .ok (machine.heap.get ref) machine := rfl
  rw [copyElements, bind_of_ok (looked source), bind_of_ok (looked target)]
  cases sourceArray : (machine.heap.get source).array? with
  | none => exact throws "source" _
  | some _ =>
    rw [plain.resolve_left (by rw [sourceArray]; nofun)]
    exact throws "destination" _

omit builtin sound in
theorem arraycopy_throws {before : Machine} {className : String} {message : Option String}
    (arrays : request.Arrays machine.heap)
    (throws : Exec.Throws before className message
      (copyElements arrays.source arrays.target request.sourceStart.toInt
        request.targetStart.toInt request.count.toInt services machine)) :
    Exec.Throws before className message
      (arraycopy ⟨owner, method, request.arguments⟩ services machine) := by
  rw [arraycopy_eq arrays.isSource arrays.isTarget]
  exact throws.bind _

theorem arraycopy_of_differ (arrays : request.Arrays machine.heap) (differ : ¬ arrays.Match) :
    ∃ message, Exec.Throws machine ClassName.arrayStoreException (some message)
      (arraycopy ⟨owner, method, request.arguments⟩ services machine) := by
  obtain ⟨message, throws⟩ := checkComponents_throws builtin sound differ
  refine ⟨message, arraycopy_throws owner method arrays ?_⟩
  rw [copyElements_of_arrays]
  exact throws.bind _

theorem arraycopy_of_outside (arrays : request.Arrays machine.heap) (same : arrays.Match)
    (outside : ¬ arrays.Within) :
    ∃ message, Exec.Throws machine ClassName.arrayIndexOutOfBoundsException (some message)
      (arraycopy ⟨owner, method, request.arguments⟩ services machine) := by
  obtain ⟨message, throws⟩ := checkRange_throws builtin sound outside
  refine ⟨message, arraycopy_throws owner method arrays ?_⟩
  rw [copyElements_of_arrays, bind_of_ok (checkComponents_of_copiesInto same)]
  exact throws.bind _

theorem arraycopy_of_unfit (arrays : request.Arrays machine.heap) (same : arrays.Match)
    (within : arrays.Within) {first : Nat} (counted : first < request.count.toInt.toNat)
    (before : ∀ offset < first, arrays.Admits offset) (unfit : ¬ arrays.Admits first) :
    ∃ heap message, arrays.Copied first heap ∧
      Exec.Throws { machine with heap } ClassName.arrayStoreException (some message)
        (arraycopy ⟨owner, method, request.arguments⟩ services machine) := by
  obtain ⟨heap, message, copied, throws⟩ :=
    storeAll_throws arrays builtin sound same within counted before unfit
  refine ⟨heap, message, copied, arraycopy_throws owner method arrays ?_⟩
  rw [copyElements_of_checked arrays same within]
  exact throws

omit builtin sound in
theorem arraycopy_of_admits (arrays : request.Arrays machine.heap) (same : arrays.Match)
    (within : arrays.Within) (admits : ∀ offset < request.count.toInt.toNat, arrays.Admits offset) :
    ∃ heap, arrays.Copied request.count.toInt.toNat heap ∧
      arraycopy ⟨owner, method, request.arguments⟩ services machine =
        .ok none { machine with heap } := by
  obtain ⟨heap, copied, ended⟩ : ∃ heap, arrays.Copied request.count.toInt.toNat heap ∧
      storeAll arrays.target (machine.heap.get arrays.target).type
        request.targetStart.toInt.toNat (valuesOf arrays) services machine =
          .ok () { machine with heap } := storeAll_of_admits arrays within admits
  refine ⟨heap, copied, ?_⟩
  rw [← copyElements_of_checked arrays same within] at ended
  rw [arraycopy_eq arrays.isSource arrays.isTarget]
  exact bind_of_ok ended

end Outcomes

/-- Of the elements that are not all admitted one is the first. -/
theorem exists_first_unfit {heap : Heap} {arrays : request.Arrays heap} {count : Nat}
    (some : ¬ ∀ offset < count, arrays.Admits offset) :
    ∃ first < count, (∀ offset < first, arrays.Admits offset) ∧ ¬ arrays.Admits first := by
  classical
  have found : ∃ offset, offset < count ∧ ¬ arrays.Admits offset := by
    simpa only [not_forall, exists_prop] using some
  obtain ⟨counted, unfit⟩ := Nat.find_spec found
  exact ⟨Nat.find found, counted, fun offset before => by_contra fun earlier =>
    Nat.find_min found before ⟨before.trans counted, earlier⟩, unfit⟩

/-- **A copy is a snapshot, or what is thrown tells why not**: the elements are copied as they were
before if everything fits, and otherwise no array changes but for the elements before the first one
that cannot be stored. -/
theorem arraycopy_copiesOrThrows (builtin : ClassSource.StartsBuiltin services.sources)
    (sound : machine.Sound services.sources) (request : CopyRequest) (owner : LinkedClass)
    (method : Method) :
    request.CopiesOrThrows machine
      (arraycopy ⟨owner, method, request.arguments⟩ services machine) where
  missing absent := arraycopy_of_missing builtin sound owner method absent
  noArray _ _ isSource isTarget plain :=
    arraycopy_of_noArray builtin sound owner method isSource isTarget plain
  differ := arraycopy_of_differ builtin sound owner method
  outside := arraycopy_of_outside builtin sound owner method
  unfit arrays same within _ := arraycopy_of_unfit builtin sound owner method arrays same within
  completes := arraycopy_of_admits owner method
  completes_iff := by
    constructor
    · rintro ⟨value, after, ended⟩
      have never {before : Machine} {className : String} {message : Option String} :
          ¬ Exec.Throws before className message
            (arraycopy ⟨owner, method, request.arguments⟩ services machine) :=
        fun throws => throws.ne_ok value after ended
      have isArray {source target : Ref} (isSource : request.source = some source)
          (isTarget : request.target = some target) :
          (machine.heap.get source).array? ≠ none ∧ (machine.heap.get target).array? ≠ none := by
        refine not_or.mp fun plain => ?_
        obtain ⟨_, throws⟩ :=
          arraycopy_of_noArray builtin sound owner method isSource isTarget plain
        exact never throws
      obtain ⟨given, given'⟩ := not_or.mp fun absent =>
        never (arraycopy_of_missing builtin sound owner method absent)
      obtain ⟨source, isSource⟩ := Option.ne_none_iff_exists'.mp given
      obtain ⟨target, isTarget⟩ := Option.ne_none_iff_exists'.mp given'
      obtain ⟨array, array'⟩ := isArray isSource isTarget
      obtain ⟨⟨_, _⟩, sourceArray⟩ := Option.ne_none_iff_exists'.mp array
      obtain ⟨⟨_, _⟩, targetArray⟩ := Option.ne_none_iff_exists'.mp array'
      let arrays : request.Arrays machine.heap :=
        ⟨source, target, _, _, _, _, isSource, isTarget, sourceArray, targetArray⟩
      have same : arrays.Match := by_contra fun differ => by
        obtain ⟨_, throws⟩ := arraycopy_of_differ builtin sound owner method arrays differ
        exact never throws
      have within : arrays.Within := by_contra fun outside => by
        obtain ⟨_, throws⟩ := arraycopy_of_outside builtin sound owner method arrays same outside
        exact never throws
      refine ⟨arrays, same, within, by_contra fun some => ?_⟩
      obtain ⟨first, counted, before, unfit⟩ := exists_first_unfit some
      obtain ⟨_, _, -, throws⟩ :=
        arraycopy_of_unfit builtin sound owner method arrays same within counted before unfit
      exact never throws
    · rintro ⟨arrays, same, within, admits⟩
      obtain ⟨heap, -, ended⟩ : ∃ heap, _ ∧
          arraycopy ⟨owner, method, request.arguments⟩ services machine = _ :=
        arraycopy_of_admits owner method arrays same within admits
      exact ⟨_, _, ended⟩
  exact_sums offset counted := by
    have small : offset < 2 ^ 31 := by
      have high := request.count.toInt_lt
      omega
    exact ⟨CopyRequest.toInt_add_ofNat _ small, CopyRequest.toInt_add_ofNat _ small⟩
  exact_index arrays within short offset counted := by
    obtain ⟨-, start, -, -, inside⟩ := within
    exact Int32.toInt_ofInt_of_le (by omega) (by omega)

/-! ## A shift within one array -/

/-- Four of five numbers are to be shifted to the right, in an array at the start of the heap. -/
def shiftRequest : CopyRequest :=
  ⟨some 0, 0, some 0, 1, 4⟩

def shiftNumbers : Array Value :=
  #[.int 1, .int 2, .int 3, .int 4, .int 5]

/-- A machine with an array of five numbers, once the class of it is loaded. -/
def shiftMachine (loaded : LoadedClasses) (ints : LinkedClass) : Machine :=
  { ({} : Machine) with loaded, heap := (({} : Heap).add (.ofElements ints .int shiftNumbers)).2 }

theorem isOk_load_ints :
    (answer (Exec.load (FieldType.array .int).descriptor Services.builtin {})).isOk = true := by
  decide +kernel

theorem exists_of_mem_shiftNumbers {value : Value} (member : value ∈ shiftNumbers) :
    ∃ number, value = .int number := by
  simp only [shiftNumbers, List.mem_toArray, List.mem_cons, List.not_mem_nil, or_false] at member
  rcases member with rfl | rfl | rfl | rfl | rfl <;> exact ⟨_, rfl⟩

theorem possible_shift (loaded : LoadedClasses) (ints : LinkedClass) :
    shiftRequest.Possible (shiftMachine loaded ints).heap := by
  let arrays : shiftRequest.Arrays (shiftMachine loaded ints).heap :=
    ⟨0, 0, .int, .int, shiftNumbers, shiftNumbers, rfl, rfl, rfl, rfl⟩
  have within : Within shiftNumbers.size shiftNumbers.size shiftRequest.sourceStart.toInt
      shiftRequest.targetStart.toInt shiftRequest.count.toInt := by
    unfold Within
    decide
  refine ⟨arrays, .inl rfl, within, ?_⟩
  intro offset counted value found ref expected points contained
  obtain ⟨number, rfl⟩ := exists_of_mem_shiftNumbers (Array.mem_of_getElem? found)
  cases points

theorem arraycopy_copiesOrThrows_shift :
    ∃ loaded ints, (shiftMachine loaded ints).Sound Services.builtin.sources ∧
      shiftRequest.Possible (shiftMachine loaded ints).heap ∧
      shiftRequest.CopiesOrThrows (shiftMachine loaded ints)
        (arraycopy ⟨default, default, shiftRequest.arguments⟩ Services.builtin
          (shiftMachine loaded ints)) := by
  have isOk := isOk_load_ints
  cases loading : Exec.load (FieldType.array .int).descriptor Services.builtin {} with
  | error interruption after =>
    rw [loading] at isOk
    cases isOk
  | ok ints after =>
    have new : ({} : Machine).Sound Services.builtin.sources := Machine.sound_new _
    obtain ⟨succeeds, given⟩ := new.succeeds_load (FieldType.array .int).descriptor
    rw [loading] at succeeds
    obtain ⟨defined, named⟩ := given ints after loading
    obtain ⟨loaded, rfl⟩ := Exec.exists_of_load_ok loading
    have before : ({ loaded } : Machine).Sound Services.builtin.sources := succeeds.sound
    have fits : ∀ value ∈ shiftNumbers, ({} : Heap).Fits .int ints.element value := by
      intro value member
      obtain ⟨number, rfl⟩ := exists_of_mem_shiftNumbers member
      exact ⟨⟨rfl, fun _ _ _ _ => nofun⟩, fun _ => nofun⟩
    have array : (HeapObject.ofElements ints .int shiftNumbers).Sound Services.builtin.sources {} :=
      HeapObject.sound_of_fits (.inl defined) (defined.component_of_name named) fits
    have sound : (shiftMachine loaded ints).Sound Services.builtin.sources :=
      (before.succeeds_heap (before.heap.add array) (Heap.grows_add _ _)).sound
    exact ⟨loaded, ints, sound, possible_shift loaded ints,
      arraycopy_copiesOrThrows Services.startsBuiltin_builtin sound shiftRequest default default⟩

end Native.SystemMethods

end JavaMachine
