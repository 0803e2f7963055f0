import JavaMachine.Proofs.Execution.Sound

/-! # What is stored in arrays

Three writers of elements do not go by what an array is made with: the instructions that store an
element, the native method that copies elements, and the instruction that makes arrays of arrays.
Each checks what it stores against the array that it has seen. The check is still good when the
element is written, since arrays keep their shapes and objects their classes (`Lasts`). With these
writers, all instructions and all built-in native methods keep machines sound (`sound_governs`). -/

namespace JavaMachine

open Loader (Defines)
open MachineState (machine)

namespace Regime

/-! ## What lasts -/

/-- Something that still holds of the machine after whatever the regime allows. -/
def Lasts (regime : Regime) (lasting : Machine → Prop) : Prop :=
  ∀ before after, regime.good before → regime.kept before after → lasting before → lasting after

section Lasts

variable {regime : Regime} {setup : Setup} {σ α β : Type} [MachineState σ] {here : σ → Prop}
  {lasting : Machine → Prop} {gives : α → Prop} {ends : α → σ → Prop} {settled : β → σ → Prop}
  {operation : Operation σ α}

theorem Lasts.and {other : Machine → Prop} (lasts : regime.Lasts lasting)
    (otherLasts : regime.Lasts other) : regime.Lasts fun machine => lasting machine ∧ other machine :=
  fun before after good kept holds =>
    ⟨lasts before after good kept holds.1, otherLasts before after good kept holds.2⟩

theorem Leads.lasts (leads : regime.Leads setup here operation ends) (lasts : regime.Lasts lasting) :
    regime.Leads setup (fun state => here state ∧ lasting (machine state)) operation
      fun value state => ends value state ∧ lasting (machine state) :=
  leads.keeps fun _ _ holds good kept => lasts _ _ good kept holds

/-- Something done in the meantime. -/
theorem Within.bindLasting {next : α → Operation σ β}
    (first : regime.Within setup here gives operation) (lasts : regime.Lasts lasting)
    (rest : ∀ value, gives value →
      regime.Leads setup (fun state => here state ∧ lasting (machine state)) (next value) settled) :
    regime.Leads setup (fun state => here state ∧ lasting (machine state)) (operation >>= next)
      settled :=
  (Leads.lasts first lasts).bind fun value =>
    (leads_of_fact (rest value)).weaken (fun _ holds => ⟨holds.1.1, holds.1.2, holds.2⟩)
      fun _ _ => id

/-- What never gives anything leads to whatever is wanted. -/
theorem Within.never (never : regime.Within setup here (fun _ => False) operation) :
    regime.Leads setup here operation ends :=
  Leads.weaken never (fun _ => id) fun _ _ impossible => impossible.1.elim

/-- What follows the regime may be done anywhere. -/
theorem Follows.anywhere (follows : regime.Follows setup gives operation) :
    regime.Within setup (fun _ => True) gives operation :=
  follows.leads.weaken (fun _ => id) fun _ _ given => ⟨given, trivial⟩

end Lasts

variable {setup : Setup} {start : Heap} {owner c : LinkedClass} {α : Type}

variable (setup start) in
theorem lasts_shows (ref : Ref) (object : HeapObject) :
    (sound setup start).Lasts fun machine => machine.heap.Shows ref object :=
  fun _ _ _ grows shows => shows.grows grows

theorem lasts_assigns (element : Option LinkedClass) (value : Value) :
    (sound setup start).Lasts fun machine => machine.heap.Assigns element value :=
  fun _ _ _ grows assigns => assigns.grows grows

theorem lasts_made (c : LinkedClass) (ref : Ref) : (sound setup start).Lasts (Made c ref) := by
  intro before after _ grows made
  refine ⟨made.1.trans_le grows.size, ?_⟩
  rw [← made.2]
  exact congrArg Prod.fst (grows.shape ref made.1)

/-- All of some values point to objects of a class. -/
def Holding (c : LinkedClass) (values : Array Value) (machine : Machine) : Prop :=
  ∀ value ∈ values, ∃ ref, value = .reference (some ref) ∧ Made c ref machine

theorem lasts_holding (c : LinkedClass) (values : Array Value) :
    (sound setup start).Lasts (Holding c values) := by
  intro before after good kept holding value member
  obtain ⟨ref, points, made⟩ := holding value member
  exact ⟨ref, points, lasts_made c ref before after good kept made⟩

theorem leads_inCode {action : Exec α} {begins : Machine → Prop} {ends : α → Machine → Prop}
    {regime : Regime} (inner : regime.Leads setup begins action ends) :
    regime.Leads setup (fun state : StepState => InCode owner state ∧ begins state.machine)
      (Step.onMachine action) fun value state => InCode owner state ∧ ends value state.machine := by
  have led : regime.Leads setup (fun state : StepState => InCode owner state ∧ begins state.machine)
      (Step.onMachine action) fun value state => ends value state.machine :=
    (leads_onMachine inner).weaken (fun _ holds => holds.2) fun _ _ => id
  have stays (invoke : Invoker) (state : StepState) (value : α) (after : StepState)
      (holds : InCode owner state ∧ begins state.machine)
      (ended : Step.onMachine action (setup.withInvoker invoke) state = .ok value after) :
      InCode owner after := by
    obtain ⟨⟨_, _, same⟩, -, -⟩ := Step.stays_onMachine action (setup.withInvoker invoke) state
    rw [ended] at same
    change after.frame.owner = owner
    rw [show after.frame = _ from same]
    exact holds.1
  exact (led.shows stays).weaken (fun _ => id) fun _ _ => And.symm

/-! ## Elements -/

/-- An element may be set to what fits into the array. -/
theorem leads_setSlot (ref : Ref) (slot : Nat) (value : Value) :
    (sound setup start).Leads setup
      (fun machine => ∀ component slots, (machine.heap.get ref).array? = some (component, slots) →
        machine.heap.Fits component (machine.heap.get ref).type.element value)
      (Exec.setSlot ref slot value) fun _ _ => True := by
  intro calls first second _ machine good depth fits
  have succeeds := good.1.succeeds_heap (good.1.heap.set fits)
    (machine.heap.grows_set ref slot value)
  exact ⟨rfl, ⟨⟨succeeds.sound, good.2.trans succeeds.heap⟩, depth, succeeds.heap,
    fun _ _ _ => trivial⟩, fun _ _ _ => trivial⟩

variable (start) in
/-- What is of the type of the elements and assignable to their class may be stored in the array that
was seen. -/
theorem leads_store {object : HeapObject} {component : FieldType} {slots : Array Value}
    (typed : object.Typed setup.sources) (array : object.array? = some (component, slots))
    (ref : Ref) (slot : Nat) {value : Value} (holds : component.Holds value) :
    (sound setup start).Leads setup
      (fun machine => machine.heap.Shows ref object ∧ machine.heap.Assigns object.type.element value)
      (Exec.setSlot ref slot value) fun _ _ => True := by
  refine (leads_setSlot ref slot value).weaken (fun machine seen => ?_) fun _ _ => id
  have typed' := typed.component component slots array
  exact seen.1.fits array (seen.2.fits typed.provided typed' holds)

section Checks

variable {σ : Type} [MachineState σ] {here : σ → Prop}

/-- An object that is looked at goes through only if it is assignable. -/
theorem leads_checked {ref : Ref} {expected : LinkedClass} {look : Operation σ HeapObject}
    {stop : HeapObject → Operation σ PUnit}
    (looks : (sound setup start).Leads setup here look fun object state =>
      here state ∧ object = (machine state).heap.get ref)
    (stops : ∀ object, (sound setup start).Within setup here (fun _ => False) (stop object)) :
    (sound setup start).Leads setup here
      (look >>= fun object =>
        if !object.type.isAssignableTo expected then stop object else pure PUnit.unit)
      fun _ state => here state ∧
        ((machine state).heap.get ref).type.isAssignableTo expected = true := by
  refine looks.bind fun object => ?_
  split
  · exact (stops object).never.weaken (fun _ => And.left) fun _ _ => id
  · next passed =>
    refine leads_pure fun state found => ⟨found.1, ?_⟩
    rw [← found.2]
    rw [Bool.not_eq_true, Bool.not_eq_eq_eq_not, Bool.not_false] at passed
    exact passed

/-- A value that is checked for an array is assignable to the class of the elements. -/
theorem leads_check {d : LinkedClass} (provided : Provided setup.sources d) {value : Value}
    {check : Operation σ Unit}
    (checks : ∀ ref expected, value = .reference (some ref) → d.element = some expected →
      (sound setup start).Leads setup here check fun _ state => here state ∧
        ((machine state).heap.get ref).type.isAssignableTo expected = true)
    (follows : (sound setup start).Within setup here anything check) :
    (sound setup start).Leads setup here check fun _ state =>
      here state ∧ (machine state).heap.Assigns d.element value := by
  by_cases points : ∃ ref expected, value = .reference (some ref) ∧ d.element = some expected
  · obtain ⟨ref, expected, rfl, contained⟩ := points
    exact (checks ref expected rfl contained).weaken (fun _ => id) fun _ _ passed =>
      ⟨passed.1, Heap.assigns_of_passed provided contained passed.2⟩
  · exact follows.weaken (fun _ => id) fun _ _ holds =>
      ⟨holds.2, fun ref expected points' contained =>
        absurd ⟨ref, expected, points', contained⟩ points⟩

end Checks

/-- The object that is looked at is the one that is there for the rest of the instruction. -/
theorem leads_look (ref : Ref) {β : Type} {next : HeapObject → Step β}
    {settled : β → StepState → Prop}
    (rest : ∀ object : HeapObject, object.Typed setup.sources →
      (sound setup start).Leads setup
        (fun state => InCode owner state ∧ state.machine.heap.Shows ref object) (next object)
        settled) :
    (sound setup start).Leads setup (InCode owner)
      ((liftM (Exec.object ref) : Step HeapObject) >>= next) settled := by
  have looks : (sound setup start).Leads setup
      (fun state => InCode owner state ∧ True) (Step.onMachine (Exec.object ref))
      fun object state => InCode owner state ∧
        (object.Typed setup.sources ∧ object = state.machine.heap.get ref) :=
    leads_inCode (leads_object ref)
  refine Leads.bind (looks.weaken (fun _ here => ⟨here, trivial⟩) fun _ _ => id) fun object => ?_
  refine (leads_of_fact (rest object)).weaken (fun state found => ?_) fun _ _ => id
  obtain ⟨here, typed, rfl⟩ := found
  exact ⟨typed, here, Heap.shows_get _ _⟩

/-! ## New arrays -/

theorem leads_allocateZeros (defined : Defines setup.sources c) (length : Nat) :
    (sound setup start).Leads setup (fun _ => True) (Exec.allocateZeros c length) (Made c) := by
  unfold Exec.allocateZeros
  split
  · exact Leads.weaken (leads_throw _) (fun _ => id) fun _ _ => False.elim
  · next component typed =>
    exact (leads_allocate _).weaken (fun machine _ =>
      HeapObject.sound_zeros (.inl defined) typed length) fun _ _ => id

/-- An array may be made of elements that fit. -/
theorem leads_allocateElements (defined : Defines setup.sources c) (elements : Array Value) :
    (sound setup start).Leads setup
      (fun machine => ∀ component, c.component = some component → ∀ value ∈ elements,
        machine.heap.Fits component c.element value)
      (Exec.allocateElements c elements) (Made c) := by
  unfold Exec.allocateElements
  split
  · exact Leads.weaken (leads_throw _) (fun _ => id) fun _ _ => False.elim
  · next component typed =>
    exact (leads_allocate _).weaken (fun machine fits =>
      HeapObject.sound_of_fits (.inl defined) typed (fits component typed)) fun _ _ => id

/-- Objects of the class of the elements fit. -/
theorem Holding.fits {elements : Array Value} {inner : LinkedClass} {machine : Machine}
    (holding : Holding inner elements machine) (defined : Defines setup.sources c)
    (contained : c.element = some inner) (component : FieldType)
    (typed : c.component = some component) (value : Value) (member : value ∈ elements) :
    machine.heap.Fits component c.element value := by
  obtain ⟨ref, rfl, old, same⟩ := holding value member
  obtain ⟨type, typed', reference⟩ := defined.isSome_component contained
  cases typed.symm.trans typed'
  refine Heap.Assigns.fits (fun other expected points contained' => ?_) (.inl defined) typed
    (FieldType.holds_reference reference.1 _)
  cases points
  cases contained.symm.trans contained'
  refine ⟨old, ?_⟩
  rw [same]
  exact (defined.linksTo_defined (.element contained)).isAssignableTo_self

/-- Arrays that are made in a row are all there in the end. -/
theorem leads_repeated {action : Step Ref}
    (makes : (sound setup start).Leads setup (InCode owner) action fun ref state =>
      InCode owner state ∧ Made c ref state.machine) (count : Nat) (made : Array Value) :
    (sound setup start).Leads setup
      (fun state => InCode owner state ∧ Holding c made state.machine)
      (Step.repeated action count made) fun made state =>
        InCode owner state ∧ Holding c made state.machine := by
  induction count generalizing made with
  | zero => exact leads_pure fun _ => id
  | succ count ih =>
    refine Leads.bind (makes.lasts (lasts_holding c made)) fun ref => ?_
    refine (ih (made.push (.reference (some ref)))).weaken (fun state found => ?_) fun _ _ => id
    refine ⟨found.1.1, fun value member => ?_⟩
    rcases Array.mem_push.mp member with member | rfl
    · exact found.2 value member
    · exact ⟨ref, rfl, found.1.2⟩

section Grounded

variable (grounded : setup.Grounded)

include grounded

theorem leads_checkElement (defined : Defines setup.sources owner) {array : HeapObject}
    (provided : Provided setup.sources array.type) (value : Value) :
    (sound setup start).Leads setup (InCode owner) (Step.checkElement array value)
      fun _ state => InCode owner state ∧ state.machine.heap.Assigns array.type.element value := by
  have informed := sound_informed grounded start defined
  refine leads_check provided (fun ref expected points contained => ?_)
    (informed.step_checkElement array value)
  unfold Step.checkElement
  rw [points, contained]
  have looks : (sound setup start).Leads setup (InCode owner)
      (liftM (Exec.object ref) : Step HeapObject) fun object state =>
        InCode owner state ∧ object = state.machine.heap.get ref :=
    (leads_inCode (leads_object ref)).weaken (fun _ here => ⟨here, trivial⟩)
      fun _ _ found => ⟨found.1, found.2.2⟩
  exact leads_checked looks fun _ => informed.step_throwNew _ _

theorem leads_checkAssignable {d : LinkedClass} (provided : Provided setup.sources d)
    (value : Value) :
    (sound setup start).Leads setup (fun _ => True) (Native.SystemMethods.checkAssignable d value)
      fun _ machine => True ∧ machine.heap.Assigns d.element value := by
  have informed := sound_informed grounded start grounded.strings
  refine leads_check provided (fun ref expected points contained => ?_)
    (informed.system_checkAssignable d value).anywhere
  unfold Native.SystemMethods.checkAssignable
  rw [points, contained]
  have looks : (sound setup start).Leads setup (fun _ => True) (Exec.object ref)
      fun object machine => True ∧ object = machine.heap.get ref :=
    (leads_object ref).weaken (fun _ => id) fun _ _ found => ⟨trivial, found.2⟩
  exact leads_checked looks fun _ => Follows.anywhere (informed.exec_throwNew _ _)

theorem sound_storeElement (defined : Defines setup.sources owner) (op : Opcode)
    (kind : ElementKind) :
    (sound setup start).Within setup (InCode owner) anything (Step.storeElement op kind) := by
  have informed := sound_informed grounded start defined
  refine Within.bind (informed.step_onFrame _) fun value _ => ?_
  refine Within.bind (informed.step_onFrame _) fun index _ => ?_
  refine Within.bind informed.step_popObject fun ref _ => ?_
  refine leads_look ref fun object typed => ?_
  have seen := lasts_shows setup start ref object
  refine Within.bindLasting (informed.step_componentOf op kind object) seen fun component array => ?_
  obtain ⟨slots, array⟩ := array
  refine Within.bindLasting (informed.step_checkKind op component value) seen fun _ sameKind => ?_
  refine Leads.bind ((leads_checkElement grounded defined typed.provided value).lasts seen)
    fun _ => ?_
  split
  · have stores := leads_store start typed array ref index.toInt.toNat
      (Value.holds_narrow sameKind)
    exact (leads_inCode stores).weaken (fun _ found => ⟨found.1.1, found.2, found.1.2.narrow component⟩)
      fun _ _ ended => ⟨trivial, ended.1⟩
  · exact Leads.weaken (informed.step_indexOutOfBounds object index) (fun _ found => found.1.1)
      fun _ _ => id

theorem leads_allocateArray (ownerDefined : Defines setup.sources owner)
    (defined : Defines setup.sources c) (length : Nat) :
    (sound setup start).Leads setup (InCode owner) (Step.allocateArray c length)
      fun ref state => InCode owner state ∧ Made c ref state.machine := by
  have informed := sound_informed grounded start ownerDefined
  have limited : (sound setup start).Leads setup (InCode owner) (do
      let limit ← (do return (← read).limits.arrayLength)
      if length ≤ limit then Exec.allocateZeros c length else Step.outOfMemory)
      fun ref state => InCode owner state ∧ Made c ref state.machine := by
    refine Leads.bind informed.step_arrayLimit fun limit => ?_
    split
    · exact (leads_inCode (leads_allocateZeros defined length)).weaken
        (fun _ here => ⟨here.2, trivial⟩) fun _ _ => id
    · exact (Within.never informed.step_outOfMemory).weaken (fun _ here => here.2) fun _ _ => id
  exact limited

/-- An array of arrays is made with elements of the class that its class says. -/
theorem leads_allocateNested (ownerDefined : Defines setup.sources owner)
    (defined : Defines setup.sources c) (length : Nat) (inner : List Nat) :
    (sound setup start).Leads setup (InCode owner) (Step.allocateNested c length inner)
      fun ref state => InCode owner state ∧ Made c ref state.machine := by
  have informed := sound_informed grounded start ownerDefined
  induction inner generalizing c length with
  | nil => exact leads_allocateArray grounded ownerDefined defined length
  | cons first rest ih =>
    rw [Step.allocateNested]
    split
    · next element contained =>
      have makes := ih (defined.linksTo_defined (.element contained)) first
      have made : (sound setup start).Leads setup (InCode owner) (do
          let elements ← Step.repeated (Step.allocateNested element first rest) length #[]
          Exec.allocateElements c elements : Step Ref)
          fun ref state => InCode owner state ∧ Made c ref state.machine := by
        refine Leads.bind ((leads_repeated makes length #[]).weaken
          (fun _ here => ⟨here, fun _ none => absurd none (Array.not_mem_empty _)⟩) fun _ _ => id)
          fun elements => ?_
        exact (leads_inCode (leads_allocateElements defined elements)).weaken
          (fun _ held => ⟨held.1, held.2.fits defined contained⟩) fun _ _ => id
      dsimp only
      split
      · have never : (sound setup start).Within setup (InCode owner) (fun _ => False)
            (Step.fault (.tooManyDimensions c.name) : Step PUnit) := informed.step_fault _
        exact Leads.bind never fun _ => leads_of_fact False.elim
      · exact made
    · exact Within.never (informed.step_fault _)

/-! ## Native methods -/

/-- Elements that are of the type of an array are stored into it one by one, each once it is
checked. -/
theorem leads_storeAll {ref : Ref} {object : HeapObject} {component : FieldType}
    {slots : Array Value} (typed : object.Typed setup.sources)
    (array : object.array? = some (component, slots)) (position : Nat) (values : List Value)
    (holds : ∀ value ∈ values, component.Holds value) :
    (sound setup start).Leads setup
      (fun machine => True ∧ machine.heap.Shows ref object)
      (Native.SystemMethods.storeAll ref object.type position values) fun _ _ => True := by
  have seen := lasts_shows setup start ref object
  induction values generalizing position with
  | nil => exact leads_pure fun _ _ => trivial
  | cons value rest ih =>
    refine Leads.bind ((leads_checkAssignable grounded typed.provided value).lasts seen)
      fun _ => ?_
    refine Leads.bind ((leads_store start typed array ref position
      (holds value List.mem_cons_self)).lasts seen |>.weaken
        (fun _ found => ⟨⟨found.2, found.1.2⟩, found.2⟩) fun _ _ => id) fun _ => ?_
    exact ih (position + 1) fun other member => holds other (List.mem_cons_of_mem _ member)

theorem sound_copyElements (source target : Ref) (sourceStart targetStart count : Int) :
    (sound setup start).Follows setup anything
      (Native.SystemMethods.copyElements source target sourceStart targetStart count) := by
  have informed := sound_informed grounded start grounded.strings
  refine Leads.follows (Leads.bind (leads_object source) fun sourceObject => ?_)
  refine leads_of_fact fun sourceTyped => ?_
  refine Leads.bind ((leads_object target).weaken (fun _ _ => trivial) fun _ _ => id)
    fun object => leads_of_fact fun typed => ?_
  suffices copies : (sound setup start).Leads setup
      (fun machine : Machine => True ∧ machine.heap.Shows target object) _ fun _ _ => True from
    copies.weaken (fun (_ : Machine) found => ⟨trivial, found ▸ Heap.shows_get _ _⟩) fun _ _ => id
  have seen := lasts_shows setup start target object
  split
  · exact Follows.done (informed.exec_throwNew _ _)
  · exact Follows.done (informed.exec_throwNew _ _)
  · next sourceType elements targetType replaced sourceArray array =>
    refine Within.bindLasting (informed.system_checkComponents sourceType targetType).anywhere seen
      fun _ components => ?_
    refine Within.bindLasting (informed.system_checkRange _ _ _ _ _).anywhere seen fun _ _ => ?_
    refine leads_storeAll grounded typed array _ _ fun value member => ?_
    rw [Array.toList_extract] at member
    have element := Array.mem_toList_iff.mp (List.mem_of_mem_drop (List.mem_of_mem_take member))
    have held := sourceTyped.elements sourceType elements sourceArray value element
    rcases components with ⟨sourceReference, targetReference⟩ | rfl
    · exact held.reference sourceReference targetReference
    · exact held

theorem sound_assignStream {system : LinkedClass} (defined : Defines setup.sources system)
    (named : system.name = ClassName.system) {name : String} (standard : name ∈ ["out", "err"])
    (stream : Ref) :
    (sound setup start).Follows setup anything
      (Native.SystemMethods.assignStream system name stream) := by
  unfold Native.SystemMethods.assignStream
  split
  · exact follows_throw _
  · next owner field found =>
    obtain ⟨ownerDefined, member⟩ := defined.declared_of_staticField? found
    have kind := grounded.streams system owner defined named name standard field found
    have holds := FieldType.holds_reference (FieldType.isReference_iff.mpr kind) (some stream)
    exact sound_setStatic ownerDefined member (.inl holds)

/-- The built-in native methods keep machines sound when they are called under their keys. -/
theorem sound_natives :
    Serving (Knowledge.provided setup.sources).Calls
      (fun _ action => (sound setup start).Follows setup anything action) Native.table := by
  have informed := sound_informed grounded start grounded.strings
  refine informed.native_table (sound_copyElements grounded) fun call called name standard stream => ?_
  exact sound_assignStream grounded called.owner (congrArg NativeKey.className called.key).symm
    standard stream

/-- **Whatever code does, sound machines stay sound**, with the built-in native methods and others
that keep machines sound. -/
theorem sound_governs {host : NativeTable} (natives : setup.natives = host ++ Native.table)
    (hosted : Serving (Knowledge.provided setup.sources).Calls
      (fun _ action => (sound setup start).Follows setup anything action) host) :
    (sound setup start).Governs setup where
  load invoke name machine good := by
    have sourced : machine.Sound (setup.withInvoker invoke).sources := good.1
    have succeeds := (sourced.succeeds_load name).1
    exact ⟨⟨succeeds.sound, good.2.trans succeeds.heap⟩, succeeds.depth, succeeds.heap,
      fun _ _ _ => trivial⟩
  instruction := by
    intro calls first second twins state good depth hosts
    obtain ⟨index, callable, -, -⟩ := hosts.method
    have defined : Defines setup.sources state.frame.owner := callable.1
    have within := (sound_informed grounded start defined).step_instruction
      (sound_storeElement grounded defined) fun c isKnown length inner =>
        (leads_allocateNested grounded defined isKnown length inner).weaken (fun _ => id)
          fun _ _ ended => ⟨trivial, ended.1⟩
    obtain ⟨same, ends, given⟩ := within calls first second twins state good depth rfl
    exact ⟨same, ends, fun next after ended => (given next after ended).1⟩
  natives := by
    rw [natives]
    exact serving_append.mpr ⟨hosted, sound_natives grounded⟩

end Grounded

end Regime

end JavaMachine
