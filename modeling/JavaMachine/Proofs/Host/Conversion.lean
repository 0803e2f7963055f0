import JavaMachine.Proofs.Class.Subtyping
import JavaMachine.Proofs.Execution.Elements
import JavaMachine.Proofs.Host.Access

/-! # What hosts pass

A host value that a type accepts becomes a slot value of the type: of its kind, in its range, and, if
it is a reference, to an object of a class that is assignable to the one that the type names
(`HostValue.toValue_yields`). What was accepted once stays accepted, and what a type holds it still
holds later, as the heap only grows. -/

namespace JavaMachine

open Loader (Defines)

/-! ## Values that may be passed -/

/-- A host value that may be passed where a type is declared, given what objects there are. -/
inductive HostValue.Accepted (sources : List ClassSource) (heap : Heap) :
    FieldType → HostValue → Prop where
  | null {type : FieldType} (reference : type.isReference = true) :
      Accepted sources heap type .null
  | string {type : FieldType} {text : String}
      (listed : type = .object ClassName.string ∨ type = .object ClassName.object) :
      Accepted sources heap type (.string text)
  | array {type : FieldType} {items : List HostValue}
      (listed : type = .object ClassName.object ∨ ∃ component, type = .array component)
      (each : ∀ item ∈ items, Accepted sources heap (componentFor type) item) :
      Accepted sources heap type (.array items)
  /-- An object of a class that is assignable to the one that the type names. -/
  | object {type : FieldType} {ref : Ref} {target : LinkedClass}
      (reference : type.isReference = true) (defined : Defines sources target)
      (named : target.name = type.className)
      (assignable : type.className ≠ "" →
        ref < heap.objects.size ∧ (heap.get ref).type.isAssignableTo target = true) :
      Accepted sources heap type (.object ref)
  | number {type : FieldType} {value : HostValue} (widens : value.widensTo type = true) :
      Accepted sources heap type value

/-- A slot value that may be held as one of a type: it is of the type, and a reference points to an
object of a class that is assignable to the one that the type names. -/
structure Heap.Passes (sources : List ClassSource) (heap : Heap) (type : FieldType) (value : Value) :
    Prop where
  holds : type.Holds value
  assignable (ref : Ref) (points : value = .reference (some ref)) (proper : type.className ≠ "")
    (target : LinkedClass) (defined : Defines sources target)
    (named : target.name = type.className) :
    ref < heap.objects.size ∧ (heap.get ref).type.isAssignableTo target = true

section Passes

variable {sources : List ClassSource} {before after heap : Heap} {type : FieldType} {value : Value}
  {host : HostValue} {c : LinkedClass}

theorem Heap.Passes.grows (passes : before.Passes sources type value) (grows : before.Grows after) :
    after.Passes sources type value where
  holds := passes.holds
  assignable ref points proper target defined named := by
    obtain ⟨old, assignable⟩ := passes.assignable ref points proper target defined named
    have same : (after.get ref).type = (before.get ref).type := congrArg Prod.fst (grows.shape ref old)
    exact ⟨old.trans_le grows.size, same ▸ assignable⟩

/-- What is of the type of the elements fits into an array. -/
theorem Heap.Passes.fits (passes : heap.Passes sources type value) (defined : Defines sources c)
    (typed : c.component = some type) : heap.Fits type c.element value := by
  refine Heap.Assigns.fits (fun ref expected points contained => ?_) (.inl defined) typed passes.holds
  obtain ⟨other, typed', -, named⟩ := defined.isSome_component contained
  cases typed.symm.trans typed'
  refine passes.assignable ref points ?_ expected (defined.linksTo_defined (.element contained)) named
  rw [← named]
  exact defined.name_element_ne contained

theorem Heap.passes_null (reference : type.isReference = true) :
    heap.Passes sources type .null where
  holds := FieldType.holds_reference reference none
  assignable ref points := by cases points

/-- An object of a defined class that has the name of the type, or is asked for as one of the root
class, may be held. -/
theorem Heap.passes_made {setup : Setup} (grounded : setup.Grounded) {machine : Machine} {ref : Ref}
    (defined : Defines setup.sources c) (made : Regime.Made c ref machine)
    (reference : type.isReference = true)
    (named : type.className = c.name ∨ type.className = ClassName.object) :
    machine.heap.Passes setup.sources type (.reference (some ref)) where
  holds := FieldType.holds_reference reference _
  assignable other points _ target targetDefined targetNamed := by
    cases points
    refine ⟨made.1, ?_⟩
    rw [made.2]
    rcases named with same | root
    · rw [defined.eq_of_name_eq targetDefined (same.symm.trans targetNamed.symm)]
      exact targetDefined.isAssignableTo_self
    · exact defined.isAssignableTo_root grounded.extensible targetDefined (targetNamed.trans root)

theorem HostValue.Accepted.grows (accepted : host.Accepted sources before type)
    (grows : before.Grows after) : host.Accepted sources after type := by
  induction accepted with
  | null reference => exact .null reference
  | string listed => exact .string listed
  | array listed _ ih => exact .array listed ih
  | @object _ ref _ reference defined named assignable =>
    refine .object reference defined named fun proper => ?_
    obtain ⟨old, assignable⟩ := assignable proper
    have same : (after.get ref).type = (before.get ref).type := congrArg Prod.fst (grows.shape ref old)
    exact ⟨old.trans_le grows.size, same ▸ assignable⟩
  | number widens => exact .number widens

end Passes

/-! ## Numbers -/

namespace HostValue

variable {type : FieldType} {value : HostValue}

/-- An integer that may be passed is in the range of ints and of the type. -/
theorem integer_bounds {number : Int} (integer : value.integer? = some number)
    (widens : value.widensTo type = true) :
    (-2 ^ 31 ≤ number ∧ number < 2 ^ 31) ∧
      ∀ low high, type.range? = some (low, high) → low ≤ number ∧ number ≤ high := by
  cases value with
  | byte value | short value =>
    cases integer
    have least := value.le_toInt
    have greatest := value.toInt_lt
    refine ⟨by omega, fun low high range => ?_⟩
    cases type <;> cases widens <;> cases range <;> omega
  | int value =>
    cases integer
    refine ⟨⟨value.le_toInt, value.toInt_lt⟩, fun low high range => ?_⟩
    cases type <;> first | cases widens; done | cases range
  | char unit =>
    cases integer
    have greatest := unit.toNat_lt
    refine ⟨by omega, fun low high range => ?_⟩
    cases type <;> first | cases widens; done | cases range <;> omega
  | _ => cases integer

theorem holds_int {number : Int} (kind : type.kind = .int)
    (bounds : (-2 ^ 31 ≤ number ∧ number < 2 ^ 31) ∧
      ∀ low high, type.range? = some (low, high) → low ≤ number ∧ number ≤ high) :
    type.Holds (.int (Int32.ofInt number)) where
  kind := congrArg SlotKind.value kind.symm
  ranges held low high same range := by
    cases same
    rw [Int32.toInt_ofInt_of_le bounds.1.1 bounds.1.2]
    exact bounds.2 low high range

/-- What is no int is in every range. -/
theorem holds_of_kind {converted : Value} (kind : converted.kind = .value type.kind)
    (wide : type.kind ≠ .int) : type.Holds converted where
  kind := kind
  ranges number low high same := by
    rw [same] at kind
    exact absurd (SlotKind.value.inj kind).symm wide

theorem holds_boolean (truth : Bool) : FieldType.boolean.Holds (.ofBool truth) where
  kind := rfl
  ranges number low high same range := by
    cases range
    cases truth <;> cases same <;> decide

/-- No number is a reference. -/
theorem not_isReference_of_widensTo (widens : value.widensTo type = true) :
    type.isReference = false := by
  cases value <;> cases type <;> first | rfl | cases widens

/-- A number that may be passed has a slot value, which the type holds. -/
theorem exists_numberValue (widens : value.widensTo type = true) :
    ∃ converted, value.numberValue? type = some converted ∧ type.Holds converted := by
  cases integer : value.integer? with
  | some number =>
    have bounds := integer_bounds integer widens
    cases value <;> cases integer <;> cases type <;>
      first
      | cases widens; done
      | exact ⟨_, rfl, holds_int rfl bounds⟩
      | exact ⟨_, rfl, holds_of_kind rfl (by decide)⟩
  | none =>
    cases value <;> cases integer <;> cases type <;>
      first
      | cases widens; done
      | exact ⟨_, rfl, holds_boolean _⟩
      | exact ⟨_, rfl, holds_of_kind rfl (by decide)⟩

end HostValue

/-! ## Preparations -/

/-- A sound machine that is left by something that makes no calls and changes nothing. -/
structure Machine.Prepared (sources : List ClassSource) (before after : Machine) : Prop where
  sound : after.Sound sources
  spares : Spares before after
  depth : after.depth = before.depth

namespace Machine.Prepared

variable {sources : List ClassSource} {before between after : Machine}

theorem of_sound (sound : before.Sound sources) : before.Prepared sources before :=
  ⟨sound, .of_same rfl rfl, rfl⟩

theorem trans (first : before.Prepared sources between) (second : between.Prepared sources after) :
    before.Prepared sources after :=
  ⟨second.sound, first.spares.trans second.spares, second.depth.trans first.depth⟩

/-- Nothing of the heap has changed, and objects may have been added. -/
theorem get_eq (prepared : before.Prepared sources after) {ref : Ref}
    (old : ref < before.heap.objects.size) :
    ref < after.heap.objects.size ∧ after.heap.get ref = before.heap.get ref := by
  obtain ⟨made, added, -⟩ := prepared.spares.heap
  have sizes := congrArg List.length added
  rw [List.length_append, Array.length_toList, Array.length_toList] at sizes
  have grown : before.heap.objects.size ≤ after.heap.objects.size := by omega
  refine ⟨old.trans_le grown, ?_⟩
  have found : after.heap.objects[ref]? = before.heap.objects[ref]? := by
    rw [← Array.getElem?_toList, added, List.getElem?_append_left (by simpa using old),
      Array.getElem?_toList]
  simp only [Heap.get, Array.getD_eq_getD_getElem?, found]

theorem grows (prepared : before.Prepared sources after) : before.heap.Grows after.heap where
  size := by
    obtain ⟨made, added, -⟩ := prepared.spares.heap
    have sizes := congrArg List.length added
    rw [List.length_append, Array.length_toList, Array.length_toList] at sizes
    omega
  shape ref old := congrArg HeapObject.shape (prepared.get_eq old).2

end Machine.Prepared

/-- An action that prepares something: however it ends, the machine is prepared, and what it gives
is as wanted. -/
def Exec.Yields (setup : Setup) (invoke : Invoker) {α : Type} (before : Machine) (action : Exec α)
    (gives : α → Machine → Prop) : Prop :=
  before.Prepared setup.sources (endState (action (setup.withInvoker invoke) before)) ∧
    ∀ value after, action (setup.withInvoker invoke) before = .ok value after → gives value after

namespace Exec

variable {setup : Setup} {invoke : Invoker} {α β : Type} {before : Machine} {action : Exec α}
  {gives : α → Machine → Prop} {wanted : β → Machine → Prop}

theorem yields_pure (sound : before.Sound setup.sources) {value : α} (given : gives value before) :
    Yields setup invoke before (pure value) gives := by
  refine ⟨.of_sound sound, fun other after ended => ?_⟩
  cases ended
  exact given

theorem yields_throw (sound : before.Sound setup.sources) (interruption : Interruption) :
    Yields setup invoke before (throw interruption : Exec α) gives := by
  refine ⟨.of_sound sound, fun other after ended => ?_⟩
  cases ended

theorem Yields.bind {next : α → Exec β} (first : Yields setup invoke before action gives)
    (rest : ∀ value after, before.Prepared setup.sources after → gives value after →
      Yields setup invoke after (next value) wanted) :
    Yields setup invoke before (action >>= next) wanted := by
  obtain ⟨prepared, given⟩ := first
  simp only [Yields, Bind.bind, ReaderT.bind, EStateM.bind]
  cases ended : action (setup.withInvoker invoke) before with
  | ok value after =>
    rw [ended] at prepared
    obtain ⟨preparedRest, givenRest⟩ := rest value after prepared (given value after ended)
    exact ⟨prepared.trans preparedRest, givenRest⟩
  | error interruption after =>
    rw [ended] at prepared
    refine ⟨prepared, fun _ _ ended => ?_⟩
    cases ended

theorem Yields.weaken {weaker : α → Machine → Prop} (yields : Yields setup invoke before action gives)
    (imply : ∀ value after, before.Prepared setup.sources after → gives value after →
      weaker value after) :
    Yields setup invoke before action weaker := by
  refine ⟨yields.1, fun value after ended => ?_⟩
  have prepared := yields.1
  rw [ended] at prepared
  exact imply value after prepared (yields.2 value after ended)

theorem yields_object (sound : before.Sound setup.sources) (ref : Ref) :
    Yields setup invoke before (object ref) fun found after =>
      after = before ∧ found = before.heap.get ref := by
  refine ⟨.of_sound sound, fun found after ended => ?_⟩
  cases ended
  exact ⟨rfl, rfl⟩

theorem yields_load (sound : before.Sound setup.sources) (name : String) :
    Yields setup invoke before (load name) fun c _ => Defines setup.sources c ∧ c.name = name := by
  have sourced : before.Sound (setup.withInvoker invoke).sources := sound
  obtain ⟨succeeds, given⟩ := sourced.succeeds_load name
  exact ⟨⟨succeeds.sound, (inert_load name).spares _ before, succeeds.depth⟩, given⟩

/-- A class that may be missing. -/
theorem yields_loadIfPresent (sound : before.Sound setup.sources) (name : String) :
    Yields setup invoke before (tryCatch (some <$> load name) fun _ => pure none) fun found _ =>
      ∀ c, found = some c → Defines setup.sources c ∧ c.name = name := by
  have loads : Yields setup invoke before (load name) _ := yields_load sound name
  obtain ⟨prepared, given⟩ := loads
  simp only [Yields, MonadExcept.tryCatch, tryCatchThe, MonadExceptOf.tryCatch, EStateM.tryCatch,
    map_eq_pure_bind, Bind.bind, ReaderT.bind, EStateM.bind]
  cases ended : load name (setup.withInvoker invoke) before with
  | ok c after =>
    rw [ended] at prepared
    refine ⟨prepared, fun found after' same => ?_⟩
    cases same
    intro d isFound
    cases isFound
    exact given c after ended
  | error interruption after =>
    rw [ended] at prepared
    refine ⟨prepared, fun found after' same => ?_⟩
    cases same
    intro d isFound
    cases isFound

/-- A sound object that has no fields is made. -/
theorem yields_allocate (sound : before.Sound setup.sources) {object : HeapObject}
    (new : object.Sound setup.sources before.heap) (plain : ∀ slots, object.body ≠ .fields slots) :
    Yields setup invoke before (allocate object) fun ref after =>
      Regime.Made object.type ref after ∧ ref = before.heap.objects.size ∧
        after.heap.get ref = object := by
  have succeeds := sound.succeeds_heap (sound.heap.add new) (before.heap.grows_add object)
  refine ⟨⟨succeeds.sound, (inert_allocate plain).spares _ before, succeeds.depth⟩,
    fun ref after ended => ?_⟩
  cases ended
  have made : (before.heap.add object).2.get before.heap.objects.size = object := Heap.get_add_self
  refine ⟨⟨?_, congrArg HeapObject.type made⟩, rfl, made⟩
  change before.heap.objects.size < (before.heap.add object).2.objects.size
  rw [Heap.size_add]
  exact Nat.lt_succ_self _

end Exec

/-! ## Acceptance -/

namespace HostValue

open Exec

variable {setup : Setup} {invoke : Invoker}

/-- An object is accepted if its class is assignable to the one that the type names. -/
theorem objectAccepted_assignable {machine : Machine} (sound : machine.Sound setup.sources)
    (ref : Ref) (type : FieldType) :
    Yields setup invoke machine (objectAccepted ref type) fun accepted _ =>
      accepted = true → ∃ target, Defines setup.sources target ∧ target.name = type.className ∧
        (machine.heap.get ref).type.isAssignableTo target = true := by
  refine (yields_object sound ref).bind fun object between prepared found => ?_
  obtain ⟨rfl, rfl⟩ := found
  refine (yields_loadIfPresent sound _).bind fun target after preparedAfter isTarget => ?_
  refine yields_pure preparedAfter.sound fun accepted => ?_
  cases target with
  | none => cases accepted
  | some target =>
    obtain ⟨defined, named⟩ := isTarget target rfl
    exact ⟨target, defined, named, accepted⟩

theorem objectAccepted_yields {machine : Machine} (sound : machine.Sound setup.sources) (ref : Ref)
    {type : FieldType} (reference : type.isReference = true) :
    Yields setup invoke machine (objectAccepted ref type) fun accepted after =>
      accepted = true → (object ref).Accepted setup.sources after.heap type := by
  refine (objectAccepted_assignable sound ref type).weaken
    fun accepted after prepared assignable isAccepted => ?_
  obtain ⟨target, defined, named, assignable⟩ := assignable isAccepted
  refine .object reference defined named fun proper => ?_
  have present : ref < machine.heap.objects.size := by
    by_contra dangling
    rw [Heap.get_of_not_lt dangling] at assignable
    have differs := LinkedClass.not_assignable_default (named ▸ proper)
    cases differs.symm.trans assignable
  obtain ⟨old, same⟩ := prepared.get_eq present
  exact ⟨old, same ▸ assignable⟩

mutual

/-- What is found to be acceptable may be passed. -/
theorem acceptedBy_yields {machine : Machine} (sound : machine.Sound setup.sources)
    (type : FieldType) (value : HostValue) :
    Yields setup invoke machine (value.acceptedBy type) fun accepted after =>
      accepted = true → value.Accepted setup.sources after.heap type := by
  cases value with
  | null => exact yields_pure sound .null
  | string text =>
    refine yields_pure sound fun listed => .string ?_
    rcases Bool.or_eq_true_iff.mp listed with same | same
    · exact .inl (of_decide_eq_true same)
    · exact .inr (of_decide_eq_true same)
  | array items =>
    unfold HostValue.acceptedBy
    split
    · exact (allAccepted_yields sound _ items).weaken fun accepted after _ each isAccepted =>
        .array (.inr ⟨_, rfl⟩) (each isAccepted)
    · split
      · next root =>
        subst root
        exact (allAccepted_yields sound _ items).weaken fun accepted after _ each isAccepted =>
          .array (.inl rfl) (each isAccepted)
      · exact yields_pure sound fun accepted => by cases accepted
    · exact yields_pure sound fun accepted => by cases accepted
  | object ref =>
    unfold HostValue.acceptedBy
    split
    · next reference => exact objectAccepted_yields sound ref reference
    · exact yields_pure sound fun accepted => by cases accepted
  | _ => exact yields_pure sound .number

theorem allAccepted_yields {machine : Machine} (sound : machine.Sound setup.sources)
    (type : FieldType) (items : List HostValue) :
    Yields setup invoke machine (acceptedBy.allAccepted type items) fun accepted after =>
      accepted = true → ∀ item ∈ items, item.Accepted setup.sources after.heap type := by
  cases items with
  | nil => exact yields_pure sound fun _ _ none => by cases none
  | cons first rest =>
    refine (acceptedBy_yields sound type first).bind fun accepted between prepared isFirst => ?_
    split
    · next taken =>
      refine (allAccepted_yields prepared.sound type rest).weaken
        fun allTaken after preparedAfter isRest all item member => ?_
      rcases List.mem_cons.mp member with rfl | member
      · exact (isFirst taken).grows preparedAfter.grows
      · exact isRest all item member
    · exact yields_pure prepared.sound fun accepted => by cases accepted

end

/-! ## Conversion -/

section Grounded

variable (grounded : setup.Grounded)

include grounded

theorem newString_yields {machine : Machine} (sound : machine.Sound setup.sources) (text : String) :
    Yields setup invoke machine (newString text) fun ref after =>
      Regime.Made setup.stringClass ref after ∧ ref = machine.heap.objects.size ∧
        after.heap.get ref = ⟨setup.stringClass, .text text⟩ :=
  yields_allocate sound
    ((HeapObject.typed_text (.inl grounded.strings) grounded.named text).sound rfl) nofun

omit grounded in
theorem allocateElements_yields {machine : Machine} (sound : machine.Sound setup.sources)
    {c : LinkedClass} {component : FieldType} (defined : Defines setup.sources c)
    (typed : c.component = some component) {elements : Array Value}
    (passes : ∀ value ∈ elements, machine.heap.Passes setup.sources component value) :
    Yields setup invoke machine (allocateElements c elements) fun ref after =>
      Regime.Made c ref after ∧ ref = machine.heap.objects.size ∧
        after.heap.get ref = .ofElements c component elements := by
  unfold allocateElements
  rw [typed]
  exact yields_allocate sound (HeapObject.sound_of_fits (.inl defined) typed
    fun value member => (passes value member).fits defined typed) nofun

omit grounded in
/-- A number is passed as what it widens to. -/
theorem number_yields {machine : Machine} (sound : machine.Sound setup.sources) {type : FieldType}
    {value : HostValue} (widens : value.widensTo type = true) :
    Yields setup invoke machine
      (match value.numberValue? type with
      | some converted => return converted
      | none => Exec.fail (.illegalArgument (.notPassable value.typeName type)))
      fun converted after => after.heap.Passes setup.sources type converted := by
  obtain ⟨converted, found, holds⟩ := exists_numberValue widens
  rw [found]
  refine yields_pure sound ⟨holds, fun ref points => ?_⟩
  have kind := holds.kind
  rw [points] at kind
  have reference := FieldType.isReference_iff.mpr (SlotKind.value.inj kind).symm
  cases (not_isReference_of_widensTo widens).symm.trans reference

end Grounded

mutual

/-- **What may be passed becomes a value that the type may hold.** -/
theorem toValue_yields (grounded : setup.Grounded) {machine : Machine}
    (sound : machine.Sound setup.sources) {type : FieldType} {value : HostValue}
    (accepted : value.Accepted setup.sources machine.heap type) :
    Yields setup invoke machine (value.toValue type) fun converted after =>
      after.heap.Passes setup.sources type converted := by
  cases value with
  | null =>
    cases accepted with
    | null reference => exact yields_pure sound (Heap.passes_null reference)
    | number widens => cases widens
  | string text =>
    cases accepted with
    | string listed =>
      refine (newString_yields grounded sound text).bind fun ref after prepared made => ?_
      refine yields_pure prepared.sound (Heap.passes_made grounded grounded.strings made.1 ?_ ?_)
      · rcases listed with rfl | rfl <;> rfl
      · rcases listed with rfl | rfl
        · exact .inl grounded.named.symm
        · exact .inr rfl
    | number widens => cases widens
  | array items =>
    cases accepted with
    | array listed each =>
      refine (yields_load sound _).bind fun c between prepared loaded => ?_
      obtain ⟨defined, named⟩ := loaded
      have accepted := fun item member => (each item member).grows prepared.grows
      refine (allToValues_yields grounded prepared.sound accepted).bind fun elements ready further passes => ?_
      have typed := defined.component_of_name named
      refine (allocateElements_yields further.sound defined typed fun value member =>
        passes value (List.mem_toArray.mp member)).bind fun ref after preparedAfter made => ?_
      refine yields_pure preparedAfter.sound (Heap.passes_made grounded defined made.1 ?_ ?_)
      · rcases listed with rfl | ⟨component, rfl⟩ <;> rfl
      · rcases listed with rfl | ⟨component, rfl⟩
        · exact .inr rfl
        · exact .inl named.symm
    | number widens => cases widens
  | object ref =>
    cases accepted with
    | object reference defined named assignable =>
      refine yields_pure sound ⟨FieldType.holds_reference reference _, ?_⟩
      intro other points proper target targetDefined targetNamed
      cases points
      rw [targetDefined.eq_of_name_eq defined (targetNamed.trans named.symm)]
      exact assignable proper
    | number widens => cases widens
  | _ =>
    cases accepted with
    | number widens => exact number_yields sound widens

theorem allToValues_yields (grounded : setup.Grounded) {machine : Machine}
    (sound : machine.Sound setup.sources) {type : FieldType} {items : List HostValue}
    (accepted : ∀ item ∈ items, item.Accepted setup.sources machine.heap type) :
    Yields setup invoke machine (toValue.allToValues type items) fun converted after =>
      ∀ value ∈ converted, after.heap.Passes setup.sources type value := by
  cases items with
  | nil => exact yields_pure sound fun _ none => by cases none
  | cons first rest =>
    have isFirst := accepted first List.mem_cons_self
    refine (toValue_yields grounded sound isFirst).bind fun value between prepared passes => ?_
    have areRest := fun item member =>
      (accepted item (List.mem_cons_of_mem _ member)).grows prepared.grows
    refine (allToValues_yields grounded prepared.sound areRest).bind fun values after further passesRest => ?_
    refine yields_pure further.sound fun other member => ?_
    rcases List.mem_cons.mp member with rfl | member
    · exact passes.grows further.grows
    · exact passesRest other member

end

end HostValue

end JavaMachine
