import JavaMachine.Proofs.Assembler.Transfer
import JavaMachine.Proofs.Instruction.Linking
import JavaMachine.Proofs.Instruction.StackEffect

/-! # Arrays of arrays

The instruction that makes an array of arrays makes all of them or none. Whether there is room is
counted first, for each level as a whole (`Step.fits_iff`). Then the arrays are made from the inside
out (`Step.makes_allocateNested`): each is a new one, is an element of just one other, and has the
class that its level asks for. What the instruction does with each list of counts is put together in
`Step.instruction_nestsOrThrows`. -/

namespace JavaMachine

open Loader (Defines)
open Operation (bind_of_ok bind_of_error exists_of_bind_ok)
open CodeBuilder (Holds)

/-- How many times a type is an array type. -/
def FieldType.dimensions : FieldType → Nat
  | array component => component.dimensions + 1
  | _ => 0

theorem FieldType.exists_of_dimensions {type : FieldType} (deep : 1 ≤ type.dimensions) :
    ∃ component, type = .array component := by
  cases type with
  | array component => exact ⟨component, rfl⟩
  | _ => cases deep

/-! ## Arrays on the heap -/

namespace Heap

variable {heap before between after : Heap} {first second : List Ref}

/-- Some objects have been added, one after the other, and no other object has changed. -/
structure Adds (before : Heap) (members : List Ref) (after : Heap) : Prop where
  listed : members = List.range' before.objects.size members.length
  size : after.objects.size = before.objects.size + members.length
  objects (ref : Ref) (old : ref < before.objects.size) : after.get ref = before.get ref

theorem adds_nil (heap : Heap) : heap.Adds [] heap :=
  ⟨rfl, rfl, fun _ _ => rfl⟩

theorem adds_add (heap : Heap) (object : HeapObject) :
    heap.Adds [heap.objects.size] (heap.add object).2 :=
  ⟨rfl, size_add, fun _ => get_add_of_lt⟩

theorem Adds.size_le (adds : before.Adds first after) : before.objects.size ≤ after.objects.size :=
  adds.size ▸ Nat.le_add_right ..

theorem Adds.trans (near : before.Adds first between) (far : between.Adds second after) :
    before.Adds (first ++ second) after where
  listed := by
    have left := near.listed
    have right := far.listed
    rw [near.size] at right
    rw [List.length_append, ← List.range'_append_1, ← left, ← right]
  size := by
    rw [far.size, near.size, List.length_append, Nat.add_assoc]
  objects ref old := (far.objects ref (old.trans_le near.size_le)).trans (near.objects ref old)

/-- The objects that were added are all the new ones. -/
theorem Adds.mem_iff (adds : before.Adds first after) (ref : Ref) :
    ref ∈ first ↔ before.objects.size ≤ ref ∧ ref < after.objects.size := by
  rw [adds.size, ← List.mem_range'_1, ← adds.listed]

theorem Adds.nodup (adds : before.Adds first after) : first.Nodup := by
  rw [adds.listed]
  exact List.nodup_range'

/-- At a reference there is an array of a class with so many elements. These are arrays of the class
with one bracket less in its name and with the first of the lengths inside, and so on; innermost
they are zeros. Listed are all these arrays, each after those that are inside it. -/
def Nests (heap : Heap) : (inner : List Nat) → (c : LinkedClass) → (length : Nat) → (ref : Ref) →
    (members : List Ref) → Prop
  | [], c, length, ref, members =>
    ∃ component, c.component = some component ∧
      heap.get ref = .ofElements c component (Array.replicate length (.zero component)) ∧
      members = [ref]
  | next :: rest, c, length, ref, members =>
    ∃ component element, c.component = some component ∧ c.element = some element ∧
      c.name = "[" ++ element.name ∧
      ∃ parts : List (Ref × List Ref), parts.length = length ∧
        heap.get ref =
          .ofElements c component (parts.map fun part => .reference (some part.1)).toArray ∧
        (∀ part ∈ parts, heap.Nests rest element next part.1 part.2) ∧
        members = (parts.flatMap fun part => part.2) ++ [ref]

/-- Arrays of arrays stay what they are when objects are added. -/
theorem Nests.kept {inner : List Nat} {c : LinkedClass} {length : Nat} {ref : Ref}
    (nests : before.Nests inner c length ref first)
    (same : ∀ ref < before.objects.size, after.get ref = before.get ref) :
    after.Nests inner c length ref first := by
  have present {ref : Ref} {component : FieldType} {elements : Array Value} {d : LinkedClass}
      (array : before.get ref = .ofElements d component elements) :
      after.get ref = .ofElements d component elements := by
    have shown : (before.get ref).array?.isSome := by
      rw [array]
      rfl
    exact (same ref (before.shows_get ref shown).1).trans array
  induction inner generalizing c length ref first with
  | nil =>
    obtain ⟨component, typed, array, members⟩ := nests
    exact ⟨component, typed, present array, members⟩
  | cons next rest ih =>
    obtain ⟨component, element, typed, contained, named, parts, count, array, inside, members⟩ := nests
    exact ⟨component, element, typed, contained, named, parts, count, present array,
      fun part member => ih (inside part member), members⟩

end Heap

/-- The state with another heap. -/
def StepState.withHeap (state : StepState) (heap : Heap) : StepState :=
  { state with machine := { state.machine with heap } }

namespace Step

variable {services : Services} {state : StepState} {c : LinkedClass} {length : Nat} {inner : List Nat}

/-! ## Counting -/

/-- What is counted beyond the greatest count stays there, whatever comes after it. -/
theorem min_greatestCount_mul (created more : Nat) :
    min (min created greatestCount * more) greatestCount = min (created * more) greatestCount := by
  rcases Nat.le_total created greatestCount with small | great
  · rw [Nat.min_eq_left small]
  · rw [Nat.min_eq_right great]
    cases more with
    | zero => rfl
    | succ more =>
      have counted : greatestCount ≤ greatestCount * (more + 1) :=
        Nat.le_mul_of_pos_right _ (Nat.succ_pos more)
      rw [Nat.min_eq_right counted, Nat.min_eq_right (counted.trans (Nat.mul_le_mul_right _ great))]

/-- There is room if at no level there are more elements than the limit allows. -/
theorem fits_iff {limit : Nat} (created : Nat) (lengths : List Nat) :
    fits limit created lengths = true ↔ ∀ level < lengths.length,
      min (created * (lengths.take (level + 1)).prod) greatestCount ≤ limit := by
  induction lengths generalizing created with
  | nil => exact ⟨fun _ _ impossible => absurd impossible (Nat.not_lt_zero _), fun _ => rfl⟩
  | cons length rest ih =>
    rw [fits, Bool.and_eq_true, decide_eq_true_iff, ih]
    have counted (level : Nat) :
        min (min (created * length) greatestCount * (rest.take level).prod) greatestCount =
          min (created * ((length :: rest).take (level + 1)).prod) greatestCount := by
      rw [min_greatestCount_mul, List.take_succ_cons, List.prod_cons, Nat.mul_assoc]
    have outer : min (created * ((length :: rest).take 1).prod) greatestCount =
        min (created * length) greatestCount := by
      rw [List.take_succ_cons, List.take_zero, List.prod_cons, List.prod_nil, Nat.mul_one]
    constructor
    · rintro ⟨here, inside⟩ level within
      cases level with
      | zero => exact outer ▸ here
      | succ level =>
        rw [← counted]
        exact inside level (Nat.lt_of_succ_lt_succ within)
    · intro all
      refine ⟨outer ▸ all 0 (Nat.succ_pos _), fun level within => ?_⟩
      rw [counted]
      exact all (level + 1) (Nat.succ_lt_succ within)

/-! ## Making arrays -/

/-- An action that makes arrays of arrays, of a class and with the lengths inside, and nothing else. -/
def Makes (services : Services) (action : Step Ref) (inner : List Nat) (c : LinkedClass)
    (length : Nat) : Prop :=
  ∀ state : StepState, ∃ ref members heap,
    action services state = .ok ref (state.withHeap heap) ∧
      state.machine.heap.Adds members heap ∧ heap.Nests inner c length ref members

/-- What is made a number of times is there as often, one after the other. -/
theorem repeated_of_makes {action : Step Ref} {count : Nat}
    (makes : 0 < count → Makes services action inner c length) (made : Array Value)
    (state : StepState) :
    ∃ (parts : List (Ref × List Ref)) (heap : Heap), parts.length = count ∧
      repeated action count made services state =
        .ok (made ++ (parts.map fun part => Value.reference (some part.1)).toArray)
          (state.withHeap heap) ∧
      state.machine.heap.Adds (parts.flatMap fun part => part.2) heap ∧
      ∀ part ∈ parts, heap.Nests inner c length part.1 part.2 := by
  induction count generalizing made state with
  | zero =>
    refine ⟨[], state.machine.heap, rfl, ?_, Heap.adds_nil _, fun _ => nofun⟩
    rw [List.map_nil, Array.append_empty]
    rfl
  | succ count ih =>
    obtain ⟨ref, members, heap, ended, adds, nests⟩ := makes (Nat.succ_pos count) state
    obtain ⟨parts, last, many, endedRest, addsRest, nestsRest⟩ :=
      ih (fun _ => makes (Nat.succ_pos count)) (made.push (.reference (some ref)))
        (state.withHeap heap)
    refine ⟨(ref, members) :: parts, last, congrArg Nat.succ many, ?_, adds.trans addsRest, ?_⟩
    · refine (bind_of_ok ended).trans (endedRest.trans ?_)
      rw [List.push_append_toArray]
      rfl
    · intro part member
      rcases List.mem_cons.mp member with rfl | member
      · exact nests.kept addsRest.objects
      · exact nestsRest part member

theorem exists_component_of_dimensions (deep : 1 ≤ (typeOf c).dimensions) :
    ∃ component, c.component = some component ∧
      (typeOf c).dimensions = component.dimensions + 1 := by
  obtain ⟨component, same⟩ := FieldType.exists_of_dimensions deep
  unfold typeOf at same ⊢
  cases typed : c.component with
  | none =>
    rw [typed] at same
    cases same
  | some other => exact ⟨other, rfl, rfl⟩

/-- The class of the elements of arrays of arrays. -/
theorem exists_element_of_dimensions (defined : Defines services.sources c)
    (deep : 2 ≤ (typeOf c).dimensions) :
    ∃ component element, c.component = some component ∧ c.element = some element ∧
      Defines services.sources element ∧ element.isArray = true ∧
      (typeOf c).dimensions = (typeOf element).dimensions + 1 ∧ c.name = "[" ++ element.name := by
  obtain ⟨component, typed, counted⟩ := exists_component_of_dimensions ((Nat.le_succ 1).trans deep)
  rw [counted] at deep
  obtain ⟨inner, rfl⟩ := FieldType.exists_of_dimensions (Nat.le_of_succ_le_succ deep)
  obtain ⟨element, contained⟩ := defined.exists_element typed rfl
  obtain ⟨type, same, -, named⟩ := defined.isSome_component contained
  cases typed.symm.trans same
  have elementDefined := defined.linksTo_defined (.element contained)
  have elementTyped : element.component = some inner := elementDefined.component_of_name named
  refine ⟨_, element, typed, contained, elementDefined, ?_, ?_, ?_⟩
  · rw [LinkedClass.isArray, elementTyped, Option.isSome_some]
  · rw [counted, typeOf, elementTyped]
  · have spelled : element.name = String.ofList (FieldType.array inner).write := named
    have bracket : "[" = String.ofList ['['] := rfl
    rw [(defined.of_component typed).1, spelled, bracket, ← String.ofList_append]
    rfl

/-- **Where there is room, all the arrays are made**, of as many dimensions as the class has at
most. -/
theorem makes_allocateNested {created : Nat} (defined : Defines services.sources c)
    (deep : inner.length + 1 ≤ (typeOf c).dimensions)
    (small : ∀ each ∈ length :: inner, each ≤ greatestCount) (positive : 1 ≤ created)
    (room : fits services.limits.arrayLength created (length :: inner) = true) :
    Makes services (allocateNested c length inner) inner c length := by
  induction inner generalizing c length created with
  | nil =>
    intro state
    obtain ⟨component, typed, -⟩ := exists_component_of_dimensions deep
    have enough : length ≤ services.limits.arrayLength := by
      rw [fits, Bool.and_eq_true, decide_eq_true_iff] at room
      refine (Nat.le_min.mpr ⟨?_, small length List.mem_cons_self⟩).trans room.1
      exact Nat.le_mul_of_pos_left length positive
    refine ⟨_, _, _, ?_, Heap.adds_add _ _, component, typed, Heap.get_add_self, rfl⟩
    have allocates : Exec.allocateZeros c length services state.machine =
        Exec.allocate (.ofElements c component (Array.replicate length (.zero component))) services
          state.machine := by
      rw [Exec.allocateZeros, typed]
    have chosen : allocateArray c length services state =
        onMachine (Exec.allocateZeros c length) services state := by
      unfold allocateArray
      simp only [Bind.bind, ReaderT.bind, EStateM.bind, read, readThe, MonadReaderOf.read,
        ReaderT.read, pure, EStateM.pure, if_pos enough]
      rfl
    rw [allocateNested, chosen, onMachine, allocates]
    rfl
  | cons next rest ih =>
    intro state
    obtain ⟨component, element, typed, contained, elementDefined, isArray, dimensions, named⟩ :=
      exists_element_of_dimensions defined ((Nat.le_add_left 2 rest.length).trans deep)
    rw [fits, Bool.and_eq_true, decide_eq_true_iff] at room
    have inside : 0 < length → Makes services (allocateNested element next rest) rest element next := by
      intro some
      refine ih elementDefined ?_ (fun each member => small each (List.mem_cons_of_mem _ member))
        ?_ room.2
      · rw [dimensions] at deep
        exact Nat.le_of_succ_le_succ deep
      · exact Nat.le_min.mpr ⟨Nat.mul_pos positive some, by decide⟩
    obtain ⟨parts, heap, count, ended, adds, nests⟩ := repeated_of_makes inside #[] state
    let elements := (parts.map fun part => Value.reference (some part.1)).toArray
    have kept := Heap.adds_add heap (.ofElements c component elements)
    refine ⟨_, _, _, ?_, adds.trans kept, component, element, typed, contained, named, parts, count,
      Heap.get_add_self, fun part member => (nests part member).kept kept.objects, rfl⟩
    have allocates : Exec.allocateElements c elements services (state.withHeap heap).machine =
        Exec.allocate (.ofElements c component elements) services (state.withHeap heap).machine := by
      rw [Exec.allocateElements, typed]
    rw [allocateNested, contained]
    dsimp only
    rw [isArray]
    refine (bind_of_ok ended).trans ?_
    rw [Array.empty_append]
    change onMachine (Exec.allocateElements c elements) services (state.withHeap heap) = _
    rw [onMachine, allocates]
    rfl

/-! ## Classes of arrays -/

/-- A class was found for a constant. At most it was loaded and noted for that. -/
structure Finds (services : Services) (before : StepState) (c : LinkedClass) (after : StepState) :
    Prop where
  defined : Defines services.sources c
  sound : after.machine.Sound services.sources
  extends_ : before.machine.Extends after.machine
  heap : after.machine.heap = before.machine.heap
  same : after = { before with machine := after.machine }

theorem Uses.finds_of_classNamed {index : UInt16} {found : Constant} {name : String}
    {after : StepState} (uses : Uses services index found state) (names : found.className? = some name)
    (ended : classNamed index name services state = .ok c after) : Finds services state c after := by
  obtain ⟨defined, named⟩ := uses.defined_of_classNamed names ended
  by_cases noted : ∃ d, link? index state = some (.named d)
  · obtain ⟨d, known⟩ := noted
    rw [classNamed_of_named known] at ended
    cases ended
    exact ⟨defined, uses.sound, .refl _, rfl, rfl⟩
  · rw [classNamed_of_unnamed (not_exists.mp noted)] at ended
    obtain ⟨d, ⟨machine, frame, cursor⟩, loading, ended⟩ := exists_of_bind_ok ended
    obtain ⟨_, _, linked, ended⟩ := exists_of_bind_ok ended
    rw [setLink_eq] at linked
    cases linked
    cases ended
    have load : Exec.load name services state.machine = .ok c machine :=
      Operation.of_ofExec_ok (Operation.ofExec_eq_onMachine _ ▸ loading)
    rw [onMachine, load] at loading
    cases loading
    obtain ⟨loaded, rfl⟩ := Exec.exists_of_load_ok load
    have succeeds : state.machine.Succeeds services.sources { state.machine with loaded } := by
      have outcome := (uses.sound.succeeds_load name).1
      rwa [load] at outcome
    have known := uses.sound.lookup_of_load load
    let note : ClassState → ClassState := ClassState.relink ((index, .named c) :: ·)
    have resolves : Resolves services.sources state.frame.owner index (.named c) :=
      .named uses.constant (names.trans (congrArg some named.symm)) defined
    have stateSound : (note (Exec.stateIn state.frame.owner { state.machine with loaded })).Sound
        services.sources state.frame.owner :=
      (succeeds.sound.classes _ uses.defined).setLink resolves
    have loads : (note (Exec.stateIn state.frame.owner { state.machine with loaded })).Loads
        state.frame.owner loaded :=
      (succeeds.sound.links _ uses.defined).setLink uses.constant names known (.named c)
    have noting := succeeds.sound.succeeds_withClass uses.defined stateSound loads
    refine ⟨defined, noting.sound, Exec.extends_of_prepared fun calm name member => ?_, rfl, rfl⟩
    change (Exec.withClass state.frame.owner note { state.machine with loaded }).phases name ≠ .failed
    have phases : (Exec.withClass state.frame.owner note { state.machine with loaded }).phases =
        state.machine.phases := by
      rw [Exec.phases_withClass]
      exact (congrArg _ Exec.phase_stateIn).trans (Function.update_eq_self ..)
    rw [phases]
    exact calm name member

theorem finds_of_classAt {index : UInt16} {after : StepState}
    (sound : state.machine.Sound services.sources) (defined : Defines services.sources state.frame.owner)
    (ended : classAt index services state = .ok c after) : Finds services state c after := by
  unfold classAt constantAt at ended
  cases constant : state.frame.owner.constant? index with
  | none =>
    simp only [Bind.bind, ReaderT.bind, EStateM.bind, frame, constant] at ended
    cases ended
  | some found =>
    simp only [Bind.bind, ReaderT.bind, EStateM.bind, frame, constant] at ended
    cases found with
    | classRef name => exact Uses.finds_of_classNamed ⟨sound, defined, constant⟩ rfl ended
    | _ => cases ended

/-! ## The counts -/

theorem lengthOf_of_sized {count : Int32} (sized : 0 ≤ count) :
    lengthOf count services state = .ok count.toInt.toNat state := by
  rw [lengthOf, if_neg (Int32.not_lt.mpr sized)]
  rfl

theorem lengthsOf_of_sized {counts : List Int32} (sized : ∀ count ∈ counts, 0 ≤ count) :
    lengthsOf (counts.map Value.int) services state =
      .ok (counts.map fun count => count.toInt.toNat) state := by
  induction counts with
  | nil => rfl
  | cons count rest ih =>
    rw [List.map_cons, lengthsOf]
    refine (bind_of_ok (lengthOf_of_sized (sized count List.mem_cons_self))).trans ?_
    exact (bind_of_ok (ih fun each member => sized each (List.mem_cons_of_mem _ member))).trans rfl

/-- The outermost negative count is the one that is complained about. -/
theorem lengthsOf_throws (builtin : ClassSource.StartsBuiltin services.sources)
    (sound : state.machine.Sound services.sources) {counts : List Int32} {count : Int32}
    (outermost : counts.find? (· < 0) = some count) :
    Exec.Throws state.machine ClassName.negativeArraySizeException (some (toString count.toInt))
      (lengthsOf (counts.map Value.int) services state) := by
  induction counts with
  | nil => cases outermost
  | cons first rest ih =>
    rw [List.map_cons, lengthsOf]
    by_cases negative : first < 0
    · rw [List.find?_cons_of_pos (by simpa using negative)] at outermost
      cases outermost
      refine Exec.Throws.bind ?_ _
      rw [lengthOf, if_pos negative]
      exact (Exec.throwNew_throws builtin sound (by decide) _).ofExec
    · rw [List.find?_cons_of_neg (by simpa using negative)] at outermost
      rw [bind_of_ok (lengthOf_of_sized (Int32.not_lt.mp negative))]
      exact (ih outermost).bind _

/-- How many elements there are at a level, for the counts of it and of the levels around it. -/
def createdAt (counts : List Int32) (level : Nat) : Nat :=
  min ((counts.map fun count => count.toInt.toNat).take (level + 1)).prod greatestCount

theorem fits_iff_createdAt {limit : Nat} (counts : List Int32) :
    fits limit 1 (counts.map fun count => count.toInt.toNat) = true ↔
      ∀ level < counts.length, createdAt counts level ≤ limit := by
  rw [fits_iff, List.length_map]
  simp only [Nat.one_mul, createdAt]

/-! ## The instruction -/

theorem popSlots_append {frame : Frame} {rest taken : Array Value}
    (stack : frame.stack = rest ++ taken) :
    Frame.popSlots taken.size frame = .ok taken.toList { frame with stack := rest } := by
  rcases Frame.popSlots_checked taken.size frame with ⟨rest', taken', stack', size, ended⟩ | ⟨short, -⟩
  · obtain ⟨rfl, rfl⟩ :=
      (Array.append_eq_append_iff_of_size_eq_right size.symm).mp (stack.symm.trans stack')
    exact ended
  · rw [stack, Array.size_append] at short
    exact absurd short (Nat.not_lt.mpr (Nat.le_add_left ..))

/-- Makes arrays of arrays for some lengths, if there is room. -/
def makeNested (c : LinkedClass) : List Nat → Step Unit
  | [] => fault .zeroDimensions
  | outer :: inner => do
    if !fits (← read).limits.arrayLength 1 (outer :: inner) then
      outOfMemory
    pushObject (← allocateNested c outer inner)

theorem makeNested_throws (builtin : ClassSource.StartsBuiltin services.sources)
    (sound : state.machine.Sound services.sources) {outer : Nat}
    (full : ¬ fits services.limits.arrayLength 1 (outer :: inner) = true) :
    Exec.Throws state.machine ClassName.outOfMemoryError (some "Java heap space")
      (makeNested c (outer :: inner) services state) := by
  have throws : Exec.Throws state.machine ClassName.outOfMemoryError (some "Java heap space")
      ((outOfMemory : Step Unit) services state) :=
    (Exec.throwNew_throws builtin sound (by decide) _).ofExec
  have counted : (!fits services.limits.arrayLength 1 (outer :: inner)) = true := by
    rw [Bool.not_eq_true] at full
    rw [full, Bool.not_false]
  have read : (read : Step Services) services state = .ok services state := rfl
  rw [makeNested, bind_of_ok read, if_pos counted]
  exact throws.bind _

theorem makeNested_of_makes {outer : Nat}
    (room : fits services.limits.arrayLength 1 (outer :: inner) = true)
    (makes : Makes services (allocateNested c outer inner) inner c outer) :
    ∃ ref members heap, makeNested c (outer :: inner) services state =
        pushObject ref services (state.withHeap heap) ∧
      state.machine.heap.Adds members heap ∧ heap.Nests inner c outer ref members := by
  obtain ⟨ref, members, heap, ended, adds, nests⟩ := makes state
  have read : (read : Step Services) services state = .ok services state := rfl
  have counted : ¬ (!fits services.limits.arrayLength 1 (outer :: inner)) = true := by
    rw [room]
    decide
  refine ⟨ref, members, heap, ?_, adds, nests⟩
  rw [makeNested, bind_of_ok read, if_neg counted]
  exact bind_of_ok ended

theorem pushObject_of_room {ref : Ref} (space : state.frame.stack.size < state.frame.code.maxStack) :
    pushObject ref services state = .ok ()
      { state with
        frame := { state.frame with stack := state.frame.stack.push (.reference (some ref)) } } := by
  unfold pushObject onFrame Frame.push Frame.pushSlot
  simp only [Bind.bind, EStateM.bind, get, getThe, MonadStateOf.get, EStateM.get,
    if_neg (Nat.not_le_of_lt space)]
  rfl

/-- What the instruction does once its operands are read and its class is found. -/
theorem newNestedArray_eq {between : StepState} {index : UInt16} {dimensions : UInt8}
    {below taken : Array Value} (ahead : Ahead state (Writer.u16 index ++ [dimensions]))
    (found : classAt index services { state with cursor := state.cursor + 3 } = .ok c between)
    (positive : 1 ≤ dimensions.toNat) (stack : between.frame.stack = below ++ taken)
    (many : taken.size = dimensions.toNat) :
    newNestedArray services state = (lengthsOf taken.toList >>= makeNested c) services
      { between with frame := { between.frame with stack := below } } := by
  obtain ⟨atIndex, atDimensions⟩ := ahead_append.mp ahead
  have nonzero : ¬ dimensions = 0 := by
    rintro rfl
    exact absurd positive (by decide)
  have pops : onFrame (Frame.popSlots dimensions.toNat) services between =
      .ok taken.toList { between with frame := { between.frame with stack := below } } := by
    rw [onFrame, ← many, popSlots_append stack]
  refine (bind_of_ok (readShort_of_ahead atIndex)).trans ?_
  refine (bind_of_ok (readByte_of_ahead atDimensions)).trans ?_
  refine (bind_of_ok found).trans ?_
  rw [if_neg nonzero]
  exact (bind_of_ok pops).trans rfl

/-- What comes of an instruction that is to make an array of arrays in a machine, given its counts,
outermost first, and what is on the stack below them: it makes all the arrays, as many at each level
as the counts say, or it throws without making any. -/
structure NestsOrThrows (limit : Nat) (c : LinkedClass) (counts : List Int32) (below : Array Value)
    (before between : StepState) (result : EStateM.Result Interruption StepState Next) : Prop where
  negative (count : Int32) (outermost : counts.find? (· < 0) = some count) :
    Exec.Throws before.machine ClassName.negativeArraySizeException (some (toString count.toInt)) result
  exceeding (sized : ∀ count ∈ counts, 0 ≤ count) (level : Nat) (within : level < counts.length)
    (exceeds : limit < createdAt counts level) :
    Exec.Throws before.machine ClassName.outOfMemoryError (some "Java heap space") result
  completes (sized : ∀ count ∈ counts, 0 ≤ count)
    (room : ∀ level < counts.length, createdAt counts level ≤ limit) :
    ∃ outer inner ref members heap, counts.map (fun count => count.toInt.toNat) = outer :: inner ∧
      result = .ok .proceed
        ⟨{ between.machine with heap },
          { before.frame with stack := below.push (.reference (some ref)) }, before.cursor + 4⟩ ∧
      heap.Nests inner c outer ref members ∧ before.machine.heap.Adds members heap ∧
      members.Nodup ∧ before.machine.Extends between.machine

/-- **Arrays of arrays are made all or none.** -/
theorem instruction_nestsOrThrows {machine : Machine} {frame : Frame} {between : StepState}
    {index : UInt16} {dimensions : UInt8} {counts : List Int32} {below : Array Value}
    (builtin : ClassSource.StartsBuiltin services.sources)
    (sound : machine.Sound services.sources) (defined : Defines services.sources frame.owner)
    (ahead : Ahead ⟨machine, frame, frame.pc⟩
      (Opcode.multianewarray.byte :: (Writer.u16 index ++ [dimensions])))
    (found : classAt index services ⟨machine, frame, frame.pc + 4⟩ = .ok c between)
    (positive : 1 ≤ dimensions.toNat) (deep : dimensions.toNat ≤ (typeOf c).dimensions)
    (many : counts.length = dimensions.toNat)
    (stack : frame.stack = below ++ (counts.map Value.int).toArray)
    (space : below.size < frame.code.maxStack) :
    NestsOrThrows services.limits.arrayLength c counts below ⟨machine, frame, frame.pc⟩ between
      (instruction services ⟨machine, frame, frame.pc⟩) := by
  obtain ⟨atOpcode, behind⟩ := ahead_cons.mp ahead
  obtain ⟨classDefined, soundThere, extends_, heap, same⟩ := finds_of_classAt sound defined found
  obtain ⟨there, _, _⟩ := between
  cases same
  dsimp only at soundThere extends_ heap
  let ready : StepState := ⟨there, { frame with stack := below }, frame.pc + 4⟩
  have remains : instruction services ⟨machine, frame, frame.pc⟩ =
      proceeding (lengthsOf (counts.map Value.int) >>= makeNested c) services ready := by
    have begun : instruction services ⟨machine, frame, frame.pc⟩ =
        proceeding newNestedArray services ⟨machine, frame, frame.pc + 1⟩ :=
      Execution.instruction_of_opcode .multianewarray (Opcode.ofByte?_byte (by decide)) atOpcode
    have read : newNestedArray services ⟨machine, frame, frame.pc + 1⟩ =
        (lengthsOf (counts.map Value.int) >>= makeNested c) services ready :=
      newNestedArray_eq behind found positive stack (by rw [List.size_toArray, List.length_map, many])
    rw [begun, proceeding, proceeding]
    simp only [Bind.bind, ReaderT.bind, EStateM.bind] at read ⊢
    rw [read]
  have nonempty : counts.map (fun count => count.toInt.toNat) ≠ [] :=
    List.ne_nil_of_length_pos (by rw [List.length_map, many]; exact positive)
  obtain ⟨outer, inner, split⟩ := List.exists_cons_of_ne_nil nonempty
  have sizes (sized : ∀ count ∈ counts, 0 ≤ count) :
      (lengthsOf (counts.map Value.int) >>= makeNested c) services ready =
        makeNested c (outer :: inner) services ready :=
    bind_of_ok (split ▸ lengthsOf_of_sized sized)
  have enough : fits services.limits.arrayLength 1 (outer :: inner) = true ↔
      ∀ level < counts.length, createdAt counts level ≤ services.limits.arrayLength :=
    split ▸ fits_iff_createdAt counts
  rw [remains]
  refine ⟨fun count outermost => ?_, fun sized level within exceeds => ?_, fun sized room => ?_⟩
  · have throws : Exec.Throws ready.machine ClassName.negativeArraySizeException
        (some (toString count.toInt)) (lengthsOf (counts.map Value.int) services ready) :=
      lengthsOf_throws builtin soundThere outermost
    exact ((throws.bind _).bind _).after extends_
  · have throws : Exec.Throws ready.machine ClassName.outOfMemoryError (some "Java heap space")
        ((lengthsOf (counts.map Value.int) >>= makeNested c) services ready) := by
      rw [sizes sized]
      refine makeNested_throws builtin soundThere fun fits => ?_
      exact absurd (enough.mp fits level within) (Nat.not_le_of_lt exceeds)
    exact (throws.bind _).after extends_
  · have makes : Makes services (allocateNested c outer inner) inner c outer := by
      refine makes_allocateNested classDefined ?_ ?_ (Nat.le_refl 1) (enough.mpr room)
      · rw [← List.length_cons, ← split, List.length_map, many]
        exact deep
      · rw [← split]
        intro each member
        obtain ⟨count, -, rfl⟩ := List.mem_map.mp member
        have bounded := count.toInt_lt
        rw [greatestCount]
        omega
    obtain ⟨ref, members, heap', made, adds, nests⟩ :
        ∃ ref members heap', makeNested c (outer :: inner) services ready =
            pushObject ref services (ready.withHeap heap') ∧
          ready.machine.heap.Adds members heap' ∧ heap'.Nests inner c outer ref members :=
      makeNested_of_makes (enough.mpr room) makes
    refine ⟨outer, inner, ref, members, heap', split, ?_, nests, heap ▸ adds, adds.nodup, extends_⟩
    have pushed : pushObject ref services (ready.withHeap heap') = _ := pushObject_of_room space
    exact bind_of_ok ((sizes sized).trans (made.trans pushed))

/-! ## A grid -/

/-- A class that makes two rows of three numbers. -/
def gridScript : ClassScript :=
  ⟨"Grid", some ClassName.object, [
    .method Builtin.publicStatic "make" "()Ljava/lang/Object;" 0 [
      .iconst 2, .iconst 3, .multianewarray "[[I" 2,
      .plain (Opcode.returnValue .reference).byte]]⟩

def gridServices : Services where
  sources := Loader.builtinClasses :: (Options.ofScripts [gridScript] 0).sources
  limits := {}
  stringClass := default
  invoke := fun _ _ _ => throw .outOfFuel

/-- What becomes of a new machine that loads the class. -/
def gridLoading : EStateM.Result Interruption Machine LinkedClass :=
  Exec.load "Grid" gridServices {}

/-- The frame of the method before its third instruction. -/
def gridFrame (owner : LinkedClass) : Frame :=
  match Frame.enter owner 0 [] with
  | .ok frame => { frame with owner, pc := 2, stack := #[.int 2, .int 3] }
  | .error _ => { (default : Frame) with owner }

theorem owner_gridFrame (owner : LinkedClass) : (gridFrame owner).owner = owner := by
  unfold gridFrame
  split <;> rfl

/-- The frame before the instruction, and how many dimensions the class has that it names. -/
def gridView (owner : LinkedClass) (machine : Machine) : List UInt8 × Array Value × Nat × Nat × Option Nat :=
  let frame := gridFrame owner
  (frame.code.bytes.toList.drop frame.pc, frame.stack, frame.code.maxStack, frame.pc,
    (answer (classAt 9 gridServices ⟨machine, frame, frame.pc + 4⟩)).toOption.map fun c =>
      (typeOf c).dimensions)

theorem grid_facts :
    (answer gridLoading).toOption.map (fun owner => gridView owner (endState gridLoading)) =
      some ([0xc5, 0, 9, 2, 0xb0], #[.int 2, .int 3], 2, 2, some 2) := by
  decide +kernel

theorem instruction_nestsOrThrows_grid :
    ∃ (owner c : LinkedClass) (machine : Machine) (between : StepState),
      gridLoading = .ok owner machine ∧ machine.Sound gridServices.sources ∧
        classAt 9 gridServices ⟨machine, gridFrame owner, (gridFrame owner).pc + 4⟩ = .ok c between ∧
        (typeOf c).dimensions = 2 ∧
        NestsOrThrows gridServices.limits.arrayLength c [2, 3] #[]
          ⟨machine, gridFrame owner, (gridFrame owner).pc⟩ between
          (instruction gridServices ⟨machine, gridFrame owner, (gridFrame owner).pc⟩) := by
  have facts := grid_facts
  cases loading : gridLoading with
  | error interruption machine =>
    rw [loading] at facts
    cases facts
  | ok owner machine =>
    rw [loading] at facts
    have facts : gridView owner machine = _ := Option.some.inj facts
    simp only [gridView, Prod.mk.injEq] at facts
    obtain ⟨bytes, stack, room, -, names⟩ := facts
    cases finding : classAt 9 gridServices ⟨machine, gridFrame owner, (gridFrame owner).pc + 4⟩ with
    | error interruption after =>
      rw [finding] at names
      cases names
    | ok c between =>
      rw [finding] at names
      have dimensions : (typeOf c).dimensions = 2 := Option.some.inj names
      have new : ({} : Machine).Sound gridServices.sources := Machine.sound_new _
      obtain ⟨succeeds, given⟩ := new.succeeds_load "Grid"
      change Exec.load "Grid" gridServices {} = _ at loading
      rw [loading] at succeeds
      have defined : Defines gridServices.sources (gridFrame owner).owner := by
        rw [owner_gridFrame]
        exact (given owner machine loading).1
      have ahead : Ahead ⟨machine, gridFrame owner, (gridFrame owner).pc⟩
          (Opcode.multianewarray.byte :: (Writer.u16 9 ++ [2])) := by
        unfold Ahead Holds
        rw [bytes]
        decide +kernel
      refine ⟨owner, c, machine, between, rfl, succeeds.sound, finding, dimensions, ?_⟩
      exact instruction_nestsOrThrows ⟨_, _, Loader.source_eq_builtinClasses, rfl⟩
        succeeds.sound defined ahead finding (by decide) (dimensions ▸ by decide) rfl
        (by rw [stack]; rfl) (by rw [room]; decide)

end Step

end JavaMachine
