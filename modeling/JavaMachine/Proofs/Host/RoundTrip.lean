import JavaMachine.Proofs.Class.History
import JavaMachine.Proofs.Execution.Decision
import JavaMachine.Proofs.Host.Storage

/-! # Values there and back

What the host passes where a type is declared becomes a value that the type holds. What the host gets
for that value is what it passed, widened to the type: numbers as the type has them, texts and arrays
as they were, and any other object itself (`HostValue.Passed.comesBack`). It gets this for as long as
strings and arrays are as they were (`HostValue.Given`). -/

namespace JavaMachine

open Loader (Defines)
open Operation (bind_of_ok exists_of_bind_ok)

/-! ## Widening -/

namespace HostValue

/-- An integer as a number of a type. -/
def ofInteger (number : Int) : FieldType → HostValue
  | .byte => byte (Int8.ofInt number)
  | .char => char (UInt16.ofNat number.toNat)
  | .short => short (Int16.ofInt number)
  | .long => long (Int64.ofInt number)
  | .float => float (Single.ofInt number)
  | .double => double (Double.ofInt number)
  | _ => int (Int32.ofInt number)

/-- A value as one of a type that it may be passed for: a number is widened, and so are the elements
of an array. -/
def widened (type : FieldType) : HostValue → HostValue
  | byte value => ofInteger value.toInt type
  | char unit => ofInteger unit.toNat type
  | short value => ofInteger value.toInt type
  | int value => ofInteger value.toInt type
  | long value => ofInteger value.toInt type
  | float bits => if type = .double then double (Double.ofSingle bits) else float bits
  | array items => array (eachWidened (componentFor type) items)
  | value => value
where
  eachWidened (type : FieldType) : List HostValue → List HostValue
    | [] => []
    | first :: rest => widened type first :: eachWidened type rest

/-- The types of the elements of all the arrays that are made for a value of a type. -/
def components (type : FieldType) : HostValue → List FieldType
  | array items => componentFor type :: ofItems (componentFor type) items
  | _ => []
where
  ofItems (type : FieldType) : List HostValue → List FieldType
    | [] => []
    | first :: rest => components type first ++ ofItems type rest

/-- The objects that a value refers to. -/
def objects : HostValue → List Ref
  | array items => ofItems items
  | object ref => [ref]
  | _ => []
where
  ofItems : List HostValue → List Ref
    | [] => []
    | first :: rest => objects first ++ ofItems rest

end HostValue

/-! ## What the host gets -/

/-- An object with fields, which the host gets as it is; strings and arrays are copied for it. -/
def HeapObject.Plain (object : HeapObject) : Prop :=
  ∃ slots, object.body = .fields slots

/-- Such an object where a reference points. -/
structure Heap.Plain (heap : Heap) (ref : Ref) : Prop where
  present : ref < heap.objects.size
  plain : (heap.get ref).Plain

/-- All strings and arrays of a heap are there as they were, and the other objects are still
objects with fields. -/
def Heap.Retains (before after : Heap) : Prop :=
  ∀ ref < before.objects.size, ref < after.objects.size ∧
    ((after.get ref).body = (before.get ref).body ∨
      (before.get ref).Plain ∧ (after.get ref).Plain)

namespace Heap

variable {before between after : Heap} {ref : Ref}

theorem Retains.refl (heap : Heap) : heap.Retains heap :=
  fun _ old => ⟨old, .inl rfl⟩

theorem Retains.plain (retains : before.Retains after) (plain : before.Plain ref) :
    after.Plain ref := by
  obtain ⟨old, slots, fields⟩ := plain
  obtain ⟨there, same | ⟨-, plain⟩⟩ := retains ref old
  · exact ⟨there, slots, same.trans fields⟩
  · exact ⟨there, plain⟩

theorem Retains.trans (near : before.Retains between) (far : between.Retains after) :
    before.Retains after := by
  intro ref old
  obtain ⟨there, same | ⟨wasPlain, isPlain⟩⟩ := near ref old
  · obtain ⟨still, again⟩ := far ref there
    simp only [HeapObject.Plain, same] at again
    exact ⟨still, again⟩
  · obtain ⟨still, plain⟩ := far.plain ⟨there, isPlain⟩
    exact ⟨still, .inr ⟨wasPlain, plain⟩⟩

/-- What is no object with fields has not changed. -/
theorem Retains.body_eq (retains : before.Retains after) (old : ref < before.objects.size)
    {body : Body} (held : (before.get ref).body = body) (copied : ∀ slots, body ≠ .fields slots) :
    (after.get ref).body = body := by
  obtain ⟨-, same | ⟨⟨slots, plain⟩, -⟩⟩ := retains ref old
  · exact same.trans held
  · exact absurd (held.symm.trans plain) (copied slots)

end Heap

theorem Machine.Prepared.retains {sources : List ClassSource} {before after : Machine}
    (prepared : before.Prepared sources after) : before.heap.Retains after.heap := by
  intro ref old
  obtain ⟨there, same⟩ := prepared.get_eq old
  exact ⟨there, .inl (congrArg HeapObject.body same)⟩

namespace HostValue

/-- The host gets a value for what a slot holds as a value of a type, with so much fuel and more,
wherever the strings and arrays of a heap are as they were. -/
def Given (heap : Heap) (fuel : Nat) (type : FieldType) (content : Value) (value : HostValue) : Prop :=
  ∀ more ≥ fuel, ∀ services machine, heap.Retains machine.heap →
    ofValue more type content services machine = .ok value machine

section Given

variable {before after heap : Heap} {fuel more : Nat} {type : FieldType} {content : Value}
  {value : HostValue} {ref : Ref}

theorem Given.retains (given : Given before fuel type content value)
    (retains : before.Retains after) (enough : fuel ≤ more) :
    Given after more type content value :=
  fun _ further services machine retainsMore =>
    given _ (enough.trans further) services machine (retains.trans retainsMore)

/-- A reference is given for whatever type of references it is declared with. -/
theorem given_reference (reference : type.isReference = true) {target : Option Ref}
    (given : ∀ more ≥ fuel, ∀ services machine, heap.Retains machine.heap →
      ofReference (ofValue more) target services machine = .ok value machine) :
    Given heap (fuel + 1) type (.reference target) value := by
  intro more enough services machine retains
  obtain ⟨less, rfl⟩ := Nat.exists_eq_succ_of_ne_zero (Nat.ne_zero_of_lt enough)
  have known := given less (Nat.le_of_succ_le_succ enough) services machine retains
  cases type <;> first | cases reference; done | exact known

/-- An int is given as a number of a narrow type. -/
theorem ofValue_ofInteger {number : Int} (truthless : type ≠ .boolean) (narrow : type.kind = .int)
    (least : type = .char → 0 ≤ number) (services : Services) (machine : Machine) :
    ofValue (fuel + 1) type (.int (Int32.ofInt number)) services machine =
      .ok (ofInteger number type) machine := by
  cases type with
  | boolean => exact absurd rfl truthless
  | byte =>
    change EStateM.Result.ok (byte (Int32.ofInt number).toInt8) machine = _
    rw [Int32.toInt8_ofInt, ofInteger]
  | short =>
    change EStateM.Result.ok (short (Int32.ofInt number).toInt16) machine = _
    rw [Int32.toInt16_ofInt, ofInteger]
  | char =>
    obtain ⟨unit, rfl⟩ := Int.eq_ofNat_of_zero_le (least rfl)
    have same : (Int32.ofInt unit).toUInt32.toUInt16 = UInt16.ofNat unit := by
      rw [← UInt16.toNat_inj, UInt32.toNat_toUInt16]
      change (BitVec.ofInt 32 unit).toNat % 2 ^ 16 = _
      rw [BitVec.ofInt_natCast, BitVec.toNat_ofNat, UInt16.toNat_ofNat']
      omega
    change EStateM.Result.ok (char (Int32.ofInt unit).toUInt32.toUInt16) machine = _
    rw [same]
    rfl
  | int => rfl
  | _ => cases narrow

/-- A number is given widened. -/
theorem given_number (widens : value.widensTo type = true)
    (converted : value.numberValue? type = some content) :
    Given heap 1 type content (value.widened type) := by
  intro more enough services machine _
  obtain ⟨less, rfl⟩ := Nat.exists_eq_succ_of_ne_zero (Nat.one_le_iff_ne_zero.mp enough)
  cases value with
  | boolean truth =>
    cases type <;> cases widens
    cases converted
    cases truth <;> rfl
  | long value =>
    cases type <;> cases widens <;> cases converted
    · rfl
    · rfl
    · change EStateM.Result.ok (long value) machine = .ok (long (Int64.ofInt value.toInt)) machine
      rw [Int64.ofInt_toInt]
  | char unit =>
    cases type <;> cases widens <;> cases converted <;>
      first
      | exact ofValue_ofInteger (by decide) rfl (fun _ => Int.natCast_nonneg _) services machine
      | rfl
  | byte value | short value | int value =>
    cases type <;> cases widens <;> cases converted <;>
      first
      | exact ofValue_ofInteger (by decide) rfl (fun same => by cases same) services machine
      | rfl
  | float bits | double bits => cases type <;> cases widens <;> cases converted <;> rfl
  | _ => cases widens

theorem given_null (reference : type.isReference = true) : Given heap 1 type .null null :=
  given_reference reference fun _ _ _ _ _ => rfl

/-- A text is given as it is. -/
theorem given_string (reference : type.isReference = true) (old : ref < heap.objects.size)
    {text : String} (content : (heap.get ref).body = .text text) :
    Given heap 1 type (.reference (some ref)) (string text) := by
  refine given_reference reference fun more _ services machine retains => ?_
  have looked : Exec.object ref services machine = .ok (machine.heap.get ref) machine := rfl
  unfold ofReference
  dsimp only
  rw [bind_of_ok looked, retains.body_eq old content nofun]
  rfl

/-- An object with fields is given itself. -/
theorem given_object (reference : type.isReference = true) (plain : heap.Plain ref) :
    Given heap 1 type (.reference (some ref)) (object ref) := by
  refine given_reference reference fun more _ services machine retains => ?_
  have looked : Exec.object ref services machine = .ok (machine.heap.get ref) machine := rfl
  obtain ⟨-, slots, fields⟩ := retains.plain plain
  unfold ofReference
  dsimp only
  rw [bind_of_ok looked, fields]
  rfl

theorem mapM_eq_ok {give : Value → Exec HostValue} {contents : List Value} {values : List HostValue}
    {services : Services} {machine : Machine}
    (each : List.Forall₂ (fun content value => give content services machine = .ok value machine)
      contents values) : contents.mapM give services machine = .ok values machine := by
  induction each with
  | nil => rfl
  | cons first _ rest =>
    rw [List.mapM_cons, bind_of_ok first, bind_of_ok rest]
    rfl

/-- An array is given with its elements. -/
theorem given_array (reference : type.isReference = true) (old : ref < heap.objects.size)
    {component : FieldType} {slots : Array Value} {values : List HostValue}
    (elements : (heap.get ref).body = .elements component slots)
    (each : List.Forall₂ (Given heap fuel component) slots.toList values) :
    Given heap (fuel + 1) type (.reference (some ref)) (array values) := by
  refine given_reference reference fun more enough services machine retains => ?_
  have looked : Exec.object ref services machine = .ok (machine.heap.get ref) machine := rfl
  have given : slots.toList.mapM (ofValue more component) services machine = .ok values machine :=
    mapM_eq_ok (each.imp fun _ _ given => given more enough services machine retains)
  unfold ofReference
  dsimp only
  rw [bind_of_ok looked, retains.body_eq old elements nofun]
  exact bind_of_ok given

end Given

end HostValue

/-! ## What is made for what the host passes -/

/-- An action that prepares something and succeeds with what is wanted. -/
def Exec.Makes (setup : Setup) (invoke : Invoker) {α : Type} (before : Machine) (action : Exec α)
    (gives : α → Machine → Prop) : Prop :=
  ∃ value after, action (setup.withInvoker invoke) before = .ok value after ∧
    before.Prepared setup.sources after ∧ gives value after

namespace Exec

variable {setup : Setup} {invoke : Invoker} {α β : Type} {before : Machine} {action : Exec α}
  {gives : α → Machine → Prop} {wanted : β → Machine → Prop}

theorem makes_pure (sound : before.Sound setup.sources) {value : α} (given : gives value before) :
    Makes setup invoke before (pure value) gives :=
  ⟨value, before, rfl, .of_sound sound, given⟩

theorem Makes.bind {next : α → Exec β} (first : Makes setup invoke before action gives)
    (rest : ∀ value after, before.Prepared setup.sources after → gives value after →
      Makes setup invoke after (next value) wanted) :
    Makes setup invoke before (action >>= next) wanted := by
  obtain ⟨value, between, ended, prepared, given⟩ := first
  obtain ⟨result, after, endedRest, preparedRest, givenRest⟩ := rest value between prepared given
  exact ⟨result, after, (bind_of_ok ended).trans endedRest, prepared.trans preparedRest, givenRest⟩

/-- What yields something, and succeeds, makes it. -/
theorem Yields.makes (yields : Yields setup invoke before action gives)
    (succeeds : ∃ value after, action (setup.withInvoker invoke) before = .ok value after) :
    Makes setup invoke before action gives := by
  obtain ⟨value, after, ended⟩ := succeeds
  have prepared := yields.1
  rw [ended] at prepared
  exact ⟨value, after, ended, prepared, yields.2 value after ended⟩

theorem Makes.and_yields {also : α → Machine → Prop} (makes : Makes setup invoke before action gives)
    (yields : Yields setup invoke before action also) :
    Makes setup invoke before action fun value after => gives value after ∧ also value after := by
  obtain ⟨value, after, ended, prepared, given⟩ := makes
  exact ⟨value, after, ended, prepared, given, yields.2 value after ended⟩

/-- A class that the sources define can be loaded at any time. -/
theorem makes_load (bounded : ∀ source ∈ setup.sources, source.Bounded)
    (sound : before.Sound setup.sources) {c : LinkedClass} (defined : Defines setup.sources c) :
    Makes setup invoke before (load c.name) fun found _ => found = c := by
  have loads : Yields setup invoke before (load c.name) fun found _ =>
      Defines setup.sources found ∧ found.name = c.name := yields_load sound c.name
  have outcome := sound.loaded.outcome_eq_ok bounded defined
  refine ((loads.weaken fun found _ _ named => named.1.eq_of_name_eq defined named.2).makes ?_)
  have sourced : (setup.withInvoker invoke).sources = setup.sources := rfl
  unfold load
  rw [sourced]
  cases ended : Loader.load setup.sources c.name before.loaded with
  | ok found loaded => exact ⟨found, _, rfl⟩
  | error error loaded =>
    rw [ended] at outcome
    cases outcome

end Exec

namespace HostValue

open Exec

variable {setup : Setup} {invoke : Invoker}

/-- The classes of the arrays that are made for a value can be loaded. -/
def Loadable (sources : List ClassSource) (components : List FieldType) : Prop :=
  ∀ component ∈ components, ∃ c, Defines sources c ∧ c.name = (FieldType.array component).descriptor

theorem given_enough {heap : Heap} {type : FieldType} {content : Value} {value : HostValue}
    (given : Given heap 1 type content value) :
    Given heap (heap.objects.size + 1) type content value :=
  given.retains (.refl heap) (Nat.le_add_left 1 _)

theorem number_makes {machine : Machine} (sound : machine.Sound setup.sources) {type : FieldType}
    {value : HostValue} (widens : value.widensTo type = true) :
    Makes setup invoke machine
      (match value.numberValue? type with
      | some converted => return converted
      | none => Exec.fail (.illegalArgument (.notPassable value.typeName type)))
      fun content after =>
        Given after.heap (after.heap.objects.size + 1) type content (value.widened type) := by
  obtain ⟨content, converted, -⟩ := exists_numberValue widens
  rw [converted]
  exact makes_pure sound (given_enough (given_number widens converted))

mutual

/-- **A value that may be passed is converted, and given back as it was passed**, but widened. -/
theorem toValue_makes (grounded : setup.Grounded)
    (bounded : ∀ source ∈ setup.sources, source.Bounded) {machine : Machine}
    (sound : machine.Sound setup.sources) {type : FieldType} {value : HostValue}
    (accepted : value.Accepted setup.sources machine.heap type)
    (plain : ∀ ref ∈ value.objects, machine.heap.Plain ref)
    (loadable : Loadable setup.sources (value.components type)) :
    Makes setup invoke machine (value.toValue type) fun content after =>
      Given after.heap (after.heap.objects.size + 1) type content (value.widened type) := by
  cases value with
  | null =>
    cases accepted with
    | null reference => exact makes_pure sound (given_enough (given_null reference))
    | number widens => cases widens
  | string text =>
    cases accepted with
    | string listed =>
      refine ((newString_yields grounded sound text).makes ⟨_, _, rfl⟩).bind
        fun ref after prepared made => ?_
      obtain ⟨⟨there, -⟩, -, made⟩ := made
      refine makes_pure prepared.sound (given_enough (given_string ?_ there ?_))
      · rcases listed with rfl | rfl <;> rfl
      · rw [made]
    | number widens => cases widens
  | array items =>
    cases accepted with
    | array listed each =>
      obtain ⟨c, defined, named⟩ := loadable _ List.mem_cons_self
      have loads : Makes setup invoke machine (load c.name) fun found _ => found = c :=
        makes_load bounded sound defined
      rw [named] at loads
      refine loads.bind fun found between prepared same => ?_
      subst same
      have areAccepted := fun item member => (each item member).grows prepared.grows
      have arePlain := fun ref member => prepared.retains.plain (plain ref member)
      have areLoadable := fun component member => loadable component (List.mem_cons_of_mem _ member)
      have makes : Makes setup invoke between (toValue.allToValues (componentFor type) items) _ :=
        allToValues_makes grounded bounded prepared.sound areAccepted arePlain areLoadable
      have typed := defined.component_of_name named
      refine (makes.and_yields (allToValues_yields grounded prepared.sound areAccepted)).bind
        fun elements ready further passed => ?_
      obtain ⟨given, passes⟩ := passed
      have allocates : Yields setup invoke ready (allocateElements found elements.toArray) _ :=
        allocateElements_yields further.sound defined typed fun value member =>
          passes value (List.mem_toArray.mp member)
      refine (allocates.makes ?_).bind fun ref after preparedAfter made => ?_
      · unfold allocateElements
        rw [typed]
        exact ⟨_, _, rfl⟩
      obtain ⟨⟨there, -⟩, new, made⟩ := made
      have elements : (after.heap.get ref).body = .elements (componentFor type) elements.toArray := by
        rw [made, HeapObject.ofElements]
      have reference : type.isReference = true := by
        rcases listed with rfl | ⟨component, rfl⟩ <;> rfl
      have grown : ready.heap.objects.size + 1 ≤ after.heap.objects.size := new ▸ there
      refine makes_pure preparedAfter.sound ((given_array reference there elements
        (given.imp fun _ _ given => ?_)).retains (.refl _) (Nat.succ_le_succ grown))
      exact given.retains preparedAfter.retains (Nat.le_refl _)
    | number widens => cases widens
  | object ref =>
    cases accepted with
    | object reference =>
      have isPlain := plain ref List.mem_cons_self
      exact makes_pure sound (given_enough (given_object reference isPlain))
    | number widens => cases widens
  | _ =>
    cases accepted with
    | number widens => exact number_makes sound widens

theorem allToValues_makes (grounded : setup.Grounded)
    (bounded : ∀ source ∈ setup.sources, source.Bounded) {machine : Machine}
    (sound : machine.Sound setup.sources) {type : FieldType} {items : List HostValue}
    (accepted : ∀ item ∈ items, item.Accepted setup.sources machine.heap type)
    (plain : ∀ ref ∈ objects.ofItems items, machine.heap.Plain ref)
    (loadable : Loadable setup.sources (components.ofItems type items)) :
    Makes setup invoke machine (toValue.allToValues type items) fun contents after =>
      List.Forall₂ (Given after.heap (after.heap.objects.size + 1) type) contents
        (widened.eachWidened type items) := by
  cases items with
  | nil => exact makes_pure sound .nil
  | cons first rest =>
    have isFirst := accepted first List.mem_cons_self
    have plainFirst := fun ref member => plain ref (List.mem_append_left _ member)
    have loadableFirst := fun component member => loadable component (List.mem_append_left _ member)
    refine (toValue_makes grounded bounded sound isFirst plainFirst loadableFirst).bind
      fun content between prepared given => ?_
    have areRest := fun item member =>
      (accepted item (List.mem_cons_of_mem _ member)).grows prepared.grows
    have plainRest := fun ref member =>
      prepared.retains.plain (plain ref (List.mem_append_right _ member))
    have loadableRest := fun component member =>
      loadable component (List.mem_append_right _ member)
    refine (allToValues_makes grounded bounded prepared.sound areRest plainRest loadableRest).bind
      fun contents after further givenRest => ?_
    have enough := Nat.succ_le_succ further.grows.size
    exact makes_pure further.sound (.cons (given.retains further.retains enough) givenRest)

end

/-! ## What may be passed -/

/-- A value that the host may pass where a type is declared: it is accepted, the objects in it are
no strings and no arrays, and the classes of the arrays that are made for it can be loaded. -/
structure Passed (services : Services) (before : Machine) (type : FieldType) (value : HostValue)
    (after : Machine) : Prop where
  accepted : value.acceptedBy type services before = .ok true after
  plain (ref : Ref) (within : ref ∈ value.objects) : before.heap.Plain ref
  loadable (component : FieldType) (made : component ∈ value.components type) :
    ∃ c loaded, Exec.loadArray component services before = .ok c loaded

/-- A reference points to an object of a class that is assignable to the one that a type names. -/
def Assignable (services : Services) (type : FieldType) (ref : Ref) (machine : Machine) : Prop :=
  ref < machine.heap.objects.size ∧ ∃ target loaded,
    Exec.load type.className services machine = .ok target loaded ∧
      (machine.heap.get ref).type.isAssignableTo target = true

/-- What becomes of a value that the host passes where a type is declared: it is of the kind and in
the range of the type, or a reference that is assignable to the type, and the host gets back what it
passed, widened to the type. -/
structure ComesBack (services : Services) (type : FieldType) (value : HostValue) (content : Value)
    (machine : Machine) : Prop where
  kind : content.kind = .value type.kind
  narrow : Value.narrow type content = content
  assignable (ref : Ref) (points : content = .reference (some ref)) :
    Assignable services type ref machine
  given : give type content services machine = .ok (value.widened type) machine

/-- What is made for texts and arrays is of a class that the sources define. -/
theorem Accepted.exists_target (grounded : setup.Grounded) {heap : Heap} {type : FieldType}
    {value : HostValue} (accepted : value.Accepted setup.sources heap type)
    (copied : (∃ text, value = .string text) ∨ ∃ items, value = .array items)
    (loadable : Loadable setup.sources (value.components type)) :
    type.className ≠ "" ∧ ∃ target, Defines setup.sources target ∧ target.name = type.className := by
  have root := grounded.strings.exists_object
  cases accepted with
  | string listed =>
    rcases listed with rfl | rfl
    · exact ⟨by decide, setup.stringClass, grounded.strings, grounded.named⟩
    · exact ⟨by decide, root⟩
  | array listed =>
    rcases listed with rfl | ⟨component, rfl⟩
    · exact ⟨by decide, root⟩
    · exact ⟨FieldType.descriptor_array_ne component, loadable _ List.mem_cons_self⟩
  | null | object => obtain ⟨_, same⟩ | ⟨_, same⟩ := copied <;> cases same
  | number widens => obtain ⟨_, rfl⟩ | ⟨_, rfl⟩ := copied <;> cases widens

/-- **What may be passed is converted and comes back.** -/
theorem Passed.comesBack (grounded : setup.Grounded)
    (bounded : ∀ source ∈ setup.sources, source.Bounded) {before between : Machine}
    (sound : before.Sound setup.sources) {type : FieldType} {value : HostValue}
    (passed : value.Passed (setup.withInvoker invoke) before type between) :
    Makes setup invoke between (value.toValue type) fun content after =>
      value.ComesBack (setup.withInvoker invoke) type content after ∧
        Given after.heap (after.heap.objects.size + 1) type content (value.widened type) := by
  have accepts : Yields setup invoke before (value.acceptedBy type) _ :=
    acceptedBy_yields sound type value
  have prepared := accepts.1
  have accepted := accepts.2 true between passed.accepted rfl
  rw [passed.accepted] at prepared
  have loadable : Loadable setup.sources (value.components type) := by
    intro component made
    obtain ⟨c, loaded, ended⟩ := passed.loadable component made
    have loads : Yields setup invoke before (load _) _ :=
      yields_load sound (FieldType.array component).descriptor
    exact ⟨c, loads.2 c loaded ended⟩
  have plain := fun ref within => prepared.retains.plain (passed.plain ref within)
  have converts : Makes setup invoke between (value.toValue type) fun content after =>
      Given after.heap (after.heap.objects.size + 1) type content (value.widened type) :=
    toValue_makes grounded bounded prepared.sound accepted plain loadable
  obtain ⟨content, after, ended, further, given, passes⟩ :=
    converts.and_yields (toValue_yields grounded prepared.sound accepted)
  have loads {target : LinkedClass} (defined : Defines setup.sources target)
      (named : target.name = type.className) :
      ∃ loaded, load type.className (setup.withInvoker invoke) after = .ok target loaded := by
    have makes : Makes setup invoke after (load target.name) fun found _ => found = target :=
      makes_load bounded further.sound defined
    obtain ⟨_, loaded, endedLoad, -, rfl⟩ := makes
    exact ⟨loaded, named ▸ endedLoad⟩
  have copies (copied : (∃ text, value = .string text) ∨ ∃ items, value = .array items) (ref : Ref)
      (points : content = .reference (some ref)) :
      Assignable (setup.withInvoker invoke) type ref after := by
    obtain ⟨proper, target, defined, named⟩ := accepted.exists_target grounded copied loadable
    obtain ⟨old, assignable⟩ := passes.assignable ref points proper target defined named
    obtain ⟨loaded, endedLoad⟩ := loads defined named
    exact ⟨old, target, loaded, endedLoad, assignable⟩
  refine ⟨content, after, ended, further, ⟨passes.holds.kind, Value.narrow_eq_of_holds passes.holds,
    fun ref points => ?_, given _ (Nat.le_succ _) _ after (.refl _)⟩, given⟩
  have reference : type.isReference = true := by
    have kind := passes.holds.kind
    rw [points] at kind
    exact FieldType.isReference_iff.mpr (SlotKind.value.inj kind).symm
  cases value with
  | string text => exact copies (.inl ⟨text, rfl⟩) ref points
  | array items => exact copies (.inr ⟨items, rfl⟩) ref points
  | object target =>
    cases ended
    cases points
    have asked := passed.accepted
    unfold acceptedBy at asked
    rw [if_pos reference] at asked
    have assigns : Yields setup invoke before (objectAccepted ref type) _ :=
      objectAccepted_assignable sound ref type
    obtain ⟨target, defined, named, assignable⟩ := assigns.2 true between asked rfl
    obtain ⟨there, same⟩ := prepared.get_eq (passed.plain ref List.mem_cons_self).present
    obtain ⟨loaded, endedLoad⟩ := loads defined named
    exact ⟨there, target, loaded, endedLoad, same ▸ assignable⟩
  | null =>
    cases ended
    cases points
  | _ =>
    cases accepted with
    | number widens => cases (not_isReference_of_widensTo widens).symm.trans reference

end HostValue

end JavaMachine
