import JavaMachine.Proofs.Host.RoundTrip

/-! # Fields as the host changes them

A field that the host finds by name has a place: a slot of the class that declares it, or a slot of
the object. A place that is changed holds what was put into it, and every other place holds what it
did (`Target.Place.content?_put_self`, `Target.Place.content?_put_of_apart`). So in every session, and
whatever code does, a value that may be passed comes back, directly and from a field
(`Session.Reached.exchanges`). -/

namespace JavaMachine

open Loader (Defines)
open Operation (bind_of_ok exists_of_bind_ok)

/-! ## Slots of objects -/

namespace HeapObject

variable {object : HeapObject} {slot other : Nat} {value : Value}

theorem exists_slots_of_field? (present : (object.field? slot).isSome) :
    ∃ slots, object.body = .fields slots ∧ slot < slots.size := by
  obtain ⟨type, body⟩ := object
  cases body with
  | fields slots =>
    replace present : (slots[slot]?).isSome := present
    exact ⟨slots, rfl, by simpa using present⟩
  | _ => cases present

theorem plain_of_field? (present : (object.field? slot).isSome) : object.Plain :=
  have ⟨slots, fields, _⟩ := exists_slots_of_field? present
  ⟨slots, fields⟩

theorem field?_set_self (present : (object.field? slot).isSome) :
    (object.set slot value).field? slot = some value := by
  obtain ⟨slots, fields, within⟩ := exists_slots_of_field? present
  obtain ⟨type, body⟩ := object
  cases fields
  exact Array.getElem?_setIfInBounds_self_of_lt within

theorem field?_set_of_ne (differ : other ≠ slot) :
    (object.set slot value).field? other = object.field? other := by
  obtain ⟨type, body⟩ := object
  cases body with
  | fields slots => exact Array.getElem?_setIfInBounds_ne (Ne.symm differ)
  | _ => rfl

theorem Plain.set (plain : object.Plain) : (object.set slot value).Plain := by
  obtain ⟨type, body⟩ := object
  obtain ⟨slots, rfl⟩ := plain
  exact ⟨slots.setIfInBounds slot value, rfl⟩

end HeapObject

/-- Arrays have no fields. -/
theorem Loader.Defines.instanceFields_array {sources : List ClassSource} {c : LinkedClass}
    (defined : Defines sources c) {component : FieldType} (typed : c.component = some component) :
    c.instanceFields = [] := by
  cases defined with
  | file _ _ _ _ _ _ _ linked => cases (Link.parts_of_link linked).2.2.2.2.2.symm.trans typed
  | array => rfl

/-- An object has the slots of the layout of its class. -/
theorem HeapObject.Typed.isSome_field? {sources : List ClassSource} {object : HeapObject}
    (typed : object.Typed sources) (fieldless : ∀ c, Defines sources c →
      c.name = ClassName.string → c.instanceFields = [])
    {slot : Nat} {field : Field} (present : object.type.instanceFields[slot]? = some field) :
    (object.field? slot).isSome := by
  have defined : Defines sources object.type := by
    rcases typed.provided with defined | undefined
    · exact defined
    · rw [undefined] at present
      cases present
  obtain ⟨type, body⟩ := object
  cases body with
  | fields slots =>
    have within : slot < slots.size := by
      rw [typed.fields slots rfl]
      exact (List.getElem?_eq_some_iff.mp present).1
    exact Option.isSome_iff_exists.mpr ⟨_, Array.getElem?_eq_getElem within⟩
  | elements component slots =>
    rw [defined.instanceFields_array (typed.component component slots rfl)] at present
    cases present
  | text content =>
    rw [fieldless _ defined (typed.text content rfl)] at present
    cases present

/-- An object that has a field by name has the slot of the field. -/
theorem HeapObject.Typed.exists_slot {sources : List ClassSource} {object : HeapObject}
    (typed : object.Typed sources) (fieldless : ∀ c, Defines sources c →
      c.name = ClassName.string → c.instanceFields = [])
    {name : String} {field : Field} (found : object.type.instanceField? name = some field) :
    (object.field? field.slot).isSome := by
  have member : field ∈ object.type.instanceFields :=
    List.mem_reverse.mp (List.mem_of_find?_eq_some found)
  obtain ⟨position, present⟩ := List.getElem?_of_mem member
  have slot : field.slot = position := by
    rcases typed.provided with defined | undefined
    · exact defined.slot_instanceField present
    · rw [undefined] at present
      cases present
  exact slot ▸ typed.isSome_field? fieldless present

/-! ## The states of classes -/

/-- An action that leaves the states of classes alone. -/
def Exec.Aloof {α : Type} (action : Exec α) : Prop :=
  ∀ services machine, (endState (action services machine)).classes = machine.classes

theorem Exec.aloof_preparatory : Preparatory fun _ action => Exec.Aloof action where
  pure _ _ _ := rfl
  throw _ _ _ := rfl
  get _ _ := rfl
  newString _ _ _ := rfl
  bind {_ _ action next} first rest services machine := by
    have before := first services machine
    simp only [Bind.bind, ReaderT.bind, EStateM.bind]
    cases ended : action services machine with
    | ok value between =>
      rw [ended] at before
      exact (rest value services between).trans before
    | error interruption between =>
      rw [ended] at before
      exact before
  tryCatch {_ action handle} first rest services machine := by
    have before := first services machine
    simp only [MonadExcept.tryCatch, tryCatchThe, MonadExceptOf.tryCatch, EStateM.tryCatch]
    cases ended : action services machine with
    | ok value between =>
      rw [ended] at before
      exact before
    | error interruption between =>
      rw [ended] at before
      exact (rest interruption services between).trans before
  load name services machine := by
    unfold Exec.load
    split <;> rfl
  allocateElements c elements services machine := by
    unfold Exec.allocateElements
    cases c.component <;> rfl

theorem Machine.phases_congr {before after : Machine} (classes : after.classes = before.classes) :
    after.phases = before.phases := by
  unfold Machine.phases
  rw [classes]

theorem Exec.Aloof.classes_eq {α : Type} {action : Exec α} (aloof : Aloof action)
    {services : Services} {before after : Machine} {value : α}
    (ended : action services before = .ok value after) : after.classes = before.classes := by
  have same := aloof services before
  rwa [ended] at same

theorem Target.aloof_named (className : String) (receiver : Option Ref) :
    Exec.Aloof (named className receiver) := by
  have closed := Exec.aloof_preparatory
  refine closed.bind (closed.load _) fun c => ?_
  cases receiver with
  | none => exact closed.pure _
  | some ref =>
    refine closed.bind (closed.object ref) fun object => ?_
    split
    · exact closed.pure _
    · exact closed.throw _

/-! ## Places -/

namespace Target.Place

/-- What is in a place. -/
def content? : Place → Machine → Option Value
  | static owner slot, machine => (Exec.stateIn owner machine).statics[slot]?
  | «instance» ref slot, machine => (machine.heap.get ref).field? slot

/-- The machine after a place has been changed. -/
def put (value : Value) : Place → Machine → Machine
  | static owner slot, machine =>
    Exec.withClass owner
      (fun state => { state with statics := state.statics.setIfInBounds slot value }) machine
  | «instance» ref slot, machine => { machine with heap := machine.heap.set ref slot value }

/-- Two places with nothing in common. -/
def Apart : Place → Place → Prop
  | static owner slot, static other otherSlot =>
    owner.name ≠ other.name ∨ owner = other ∧ slot ≠ otherSlot
  | «instance» ref slot, «instance» other otherSlot => ref ≠ other ∨ slot ≠ otherSlot
  | static .., «instance» .. | «instance» .., static .. => True

variable {place other : Place} {machine before after : Machine} {services : Services}
  {content value : Value}

theorem lt_of_content? {owner : LinkedClass} {slot : Nat}
    (present : ((static owner slot).content? machine).isSome) :
    slot < (Exec.stateIn owner machine).statics.size := by
  replace present : ((Exec.stateIn owner machine).statics[slot]?).isSome := present
  simpa using present

theorem old_of_content? {ref : Ref} {slot : Nat}
    (present : ((«instance» ref slot).content? machine).isSome) :
    ref < machine.heap.objects.size := by
  by_contra dangling
  rw [content?, Heap.get_of_not_lt dangling] at present
  cases present

theorem read_eq (held : place.content? machine = some content) :
    place.read services machine = .ok content machine := by
  cases place with
  | static owner slot =>
    replace held : (Exec.stateIn owner machine).statics[slot]? = some content := held
    refine (bind_of_ok Exec.classState_eq).trans ?_
    rw [held]
    rfl
  | «instance» ref slot =>
    replace held : (machine.heap.get ref).field? slot = some content := held
    have looked : Exec.object ref services machine = .ok (machine.heap.get ref) machine := rfl
    refine (bind_of_ok looked).trans ?_
    rw [held]
    rfl

theorem write_eq (present : (place.content? machine).isSome) :
    place.write value services machine = .ok () (place.put value machine) := by
  cases place with
  | static owner slot => exact (Exec.setStatic_eq ..).trans (if_pos (lt_of_content? present))
  | «instance» ref slot => exact (Exec.putField_eq ..).trans (if_pos present)

theorem phases_put : (place.put value machine).phases = machine.phases := by
  cases place with
  | static owner slot =>
    rw [put, Exec.phases_withClass]
    exact (congrArg _ Exec.phase_stateIn).trans (Function.update_eq_self _ _)
  | «instance» ref slot => rfl

theorem grows_put (place : Place) : machine.heap.Grows (place.put value machine).heap := by
  cases place with
  | static owner slot => exact .refl _
  | «instance» ref slot => exact Heap.grows_set ..

theorem content?_congr (classes : after.classes = before.classes) (heap : after.heap = before.heap) :
    place.content? after = place.content? before := by
  cases place with
  | static owner slot => rw [content?, content?, Exec.stateIn, Exec.stateIn, classes]
  | «instance» ref slot => rw [content?, content?, heap]

/-- A place holds what was put into it. -/
theorem content?_put_self (present : (place.content? machine).isSome) :
    place.content? (place.put value machine) = some value := by
  cases place with
  | static owner slot =>
    rw [content?, put, Exec.stateIn, Exec.withClass, Exec.lookup_alter, if_pos rfl]
    exact Array.getElem?_setIfInBounds_self_of_lt (lt_of_content? present)
  | «instance» ref slot =>
    change ((machine.heap.set ref slot value).get ref).field? slot = some value
    rw [Heap.get_set_self (old_of_content? present)]
    exact HeapObject.field?_set_self present

/-- A place that is apart holds what it did. -/
theorem content?_put_of_apart (apart : other.Apart place) :
    other.content? (place.put value machine) = other.content? machine := by
  cases place with
  | static owner slot =>
    cases other with
    | static owner' slot' =>
      change (Exec.stateIn owner' (Exec.withClass owner _ machine)).statics[slot']? = _
      rw [Exec.stateIn, Exec.withClass, Exec.lookup_alter]
      split
      · next same =>
        obtain ⟨rfl, differ⟩ := apart.resolve_left (absurd same)
        exact Array.getElem?_setIfInBounds_ne (Ne.symm differ)
      · rfl
    | «instance» ref' slot' => rfl
  | «instance» ref slot =>
    cases other with
    | static owner' slot' => rfl
    | «instance» ref' slot' =>
      change ((machine.heap.set ref slot value).get ref').field? slot' = _
      by_cases same : ref' = ref
      · subst same
        have differ : slot' ≠ slot := apart.resolve_left fun differ => differ rfl
        by_cases old : ref' < machine.heap.objects.size
        · rw [Heap.get_set_self old]
          exact HeapObject.field?_set_of_ne differ
        · have dangling : ¬ ref' < (machine.heap.set ref' slot value).objects.size := by
            rwa [Heap.size_set]
          rw [Heap.get_of_not_lt dangling, content?, Heap.get_of_not_lt old]
      · rw [Heap.get_set_of_ne same]
        rfl

/-- What is prepared changes no place that holds something. -/
theorem content?_of_prepared {sources : List ClassSource} (prepared : before.Prepared sources after)
    (classes : after.classes = before.classes) (held : place.content? before = some content) :
    place.content? after = some content := by
  cases place with
  | static owner slot =>
    rw [content?, Exec.stateIn, classes]
    exact held
  | «instance» ref slot =>
    have old := old_of_content? (Option.isSome_iff_exists.mpr ⟨_, held⟩)
    rw [content?, (prepared.get_eq old).2]
    exact held

/-- No string or array is changed when a place is. -/
theorem retains_put (present : (place.content? machine).isSome) :
    machine.heap.Retains (place.put value machine).heap := by
  cases place with
  | static owner slot => exact .refl _
  | «instance» ref slot =>
    intro other old
    refine ⟨(Heap.size_set ..).symm ▸ old, ?_⟩
    by_cases same : other = ref
    · subst same
      have plain := HeapObject.plain_of_field? present
      refine .inr ⟨plain, ?_⟩
      change ((machine.heap.set other slot value).get other).Plain
      rw [Heap.get_set_self old]
      exact plain.set
    · exact .inl (congrArg HeapObject.body (Heap.get_set_of_ne same))

end Target.Place

/-! ## Finding the place of a field -/

namespace Target

/-- The place and the type of the field with a name, of a class that a host names or of an object as
an instance of the class. -/
def find (className : String) (receiver : Option Ref) (name : String) : Exec (Place × FieldType) := do
  (← named className receiver).place name

variable {setup : Setup} {invoke : Invoker} {target : Target} {name : String} {place : Place}
  {type : FieldType} {before found later : Machine} {services : Services}

theorem named_yields (sound : before.Sound setup.sources) (className : String)
    (receiver : Option Ref) :
    Exec.Yields setup invoke before (named className receiver) fun target _ =>
      Defines setup.sources target.type ∧ target.receiver = receiver := by
  have loads : Exec.Yields setup invoke before (Session.load className) _ :=
    Exec.yields_load sound (ClassName.slashed className)
  refine loads.bind fun c after prepared loaded => ?_
  cases receiver with
  | none => exact Exec.yields_pure prepared.sound ⟨loaded.1, rfl⟩
  | some ref =>
    refine (Exec.yields_object prepared.sound ref).bind fun object between further _ => ?_
    split
    · exact Exec.yields_pure further.sound ⟨loaded.1, rfl⟩
    · exact Exec.yields_throw further.sound _

/-- A class that has been named, or an object as an instance of it, can be named again later. -/
theorem named_again (bounded : ∀ source ∈ setup.sources, source.Bounded)
    (sound : before.Sound setup.sources) {className : String} {receiver : Option Ref}
    (ended : named className receiver (setup.withInvoker invoke) before = .ok target found)
    (laterSound : later.Sound setup.sources) (grown : ∀ ref, receiver = some ref →
      ref < found.heap.objects.size ∧ found.heap.Grows later.heap) :
    Exec.Makes setup invoke later (named className receiver) fun again _ => again = target := by
  obtain ⟨c, loaded, endedLoad, ended⟩ := exists_of_bind_ok ended
  have loads : Exec.Yields setup invoke before (Session.load className) _ :=
    Exec.yields_load sound (ClassName.slashed className)
  obtain ⟨defined, rightName⟩ := loads.2 c loaded endedLoad
  have loadsAgain : Exec.Makes setup invoke later (Exec.load c.name) fun again _ => again = c :=
    Exec.makes_load bounded laterSound defined
  rw [rightName] at loadsAgain
  cases receiver with
  | none =>
    cases ended
    refine loadsAgain.bind fun again after further isSame => ?_
    rw [isSame]
    exact Exec.makes_pure further.sound rfl
  | some ref =>
    obtain ⟨object, looked, endedLook, ended⟩ := exists_of_bind_ok ended
    cases endedLook
    split at ended
    · next assignable =>
      cases ended
      refine loadsAgain.bind fun again after further isSame => ?_
      obtain ⟨old, grows⟩ := grown ref rfl
      have same : (after.heap.get ref).type = (found.heap.get ref).type :=
        (congrArg HeapObject.type (further.get_eq (old.trans_le grows.size)).2).trans
          (congrArg Prod.fst (grows.shape ref old))
      have looked : Exec.object ref (setup.withInvoker invoke) after = .ok (after.heap.get ref) after :=
        rfl
      rw [isSame]
      refine ⟨⟨c, some ref⟩, after, (bind_of_ok looked).trans ?_, .of_sound further.sound, rfl⟩
      rw [same, if_pos assignable]
      rfl
    · cases ended

/-- What has been found has a place, and is found there again as long as the class of the object and
the phases are the same. -/
theorem place_again (grounded : setup.Grounded) (sound : found.Sound setup.sources)
    (defined : Defines setup.sources target.type)
    (ended : target.place name services before = .ok (place, type) found) :
    (place.content? found).isSome ∧
      (∀ ref, target.receiver = some ref → found = before ∧ ref < before.heap.objects.size) ∧
      ∀ later, later.phases = found.phases → found.heap.Grows later.heap →
        ∀ services, target.place name services later = .ok (place, type) later := by
  obtain ⟨c, receiver⟩ := target
  cases receiver with
  | none =>
    unfold Target.place at ended ⊢
    dsimp only at ended ⊢
    cases declared : c.staticField? name with
    | none =>
      rw [declared] at ended
      cases ended
    | some both =>
      obtain ⟨owner, field⟩ := both
      rw [declared] at ended
      obtain ⟨_, between, initialized, ended⟩ := exists_of_bind_ok ended
      cases ended
      obtain ⟨ownerDefined, member⟩ := defined.declared_of_staticField? declared
      obtain ⟨value, held, -⟩ := sound.staticsStored.stores owner ownerDefined field member
      refine ⟨Option.isSome_iff_exists.mpr ⟨value, held⟩, nofun, fun later phases _ services => ?_⟩
      have begun := Exec.phase_of_ensureInitialized initialized
      rw [← phases] at begun
      exact bind_of_ok (Exec.ensureInitialized_of_begun begun)
  | some ref =>
    obtain ⟨object, looked, endedLook, ended⟩ := exists_of_bind_ok ended
    cases endedLook
    dsimp only at ended
    cases declared : (before.heap.get ref).type.instanceField? name with
    | none =>
      rw [declared] at ended
      cases ended
    | some field =>
      rw [declared] at ended
      cases ended
      have present := (sound.heap.typed ref).exists_slot grounded.fieldless declared
      have old : ref < before.heap.objects.size := Place.old_of_content? present
      refine ⟨present, fun _ same => ⟨rfl, Option.some.inj same ▸ old⟩, fun later _ grows services => ?_⟩
      have same : (later.heap.get ref).type = (before.heap.get ref).type :=
        congrArg Prod.fst (grows.shape ref old)
      have looked : Exec.object ref services later = .ok (later.heap.get ref) later := rfl
      refine (bind_of_ok looked).trans ?_
      rw [same, declared]
      rfl

/-- Has a field changed by its name. -/
def change (className : String) (receiver : Option Ref) (name : String) (value : HostValue) :
    Exec Unit := do
  (← named className receiver).setField name value

/-- Has a field read by its name. -/
def look (className : String) (receiver : Option Ref) (name : String) : Exec HostValue := do
  (← named className receiver).getField name

/-- A field that is found takes what may be passed for it, and then gives it back. All other places
hold what they did. -/
theorem exists_change (grounded : setup.Grounded)
    (bounded : ∀ source ∈ setup.sources, source.Bounded) (sound : before.Sound setup.sources)
    (foundSound : found.Sound setup.sources) {className : String} {receiver : Option Ref}
    {value : HostValue} {asked : Machine}
    (finds : find className receiver name (setup.withInvoker invoke) before = .ok (place, type) found)
    (passed : value.Passed (setup.withInvoker invoke) found type asked) :
    ∃ stored, change className receiver name value (setup.withInvoker invoke) before = .ok () stored ∧
      (∀ later, later.Sound setup.sources → later.classes = stored.classes →
        later.heap = stored.heap → ∃ last,
          look className receiver name (setup.withInvoker invoke) later =
            .ok (value.widened type) last) ∧
      ∀ (other : Place) (content : Value), other.Apart place →
        other.content? found = some content → other.content? stored = some content := by
  obtain ⟨target, between, endedNamed, placed⟩ := exists_of_bind_ok finds
  have names : Exec.Yields setup invoke before (named className receiver) _ :=
    named_yields sound className receiver
  obtain ⟨defined, same⟩ := names.2 target between endedNamed
  obtain ⟨present, placedOn, again⟩ := place_again grounded foundSound defined placed
  have asks : Exec.Yields setup invoke found (value.acceptedBy type) _ :=
    HostValue.acceptedBy_yields foundSound type value
  have preparedAsked := asks.1
  rw [passed.accepted] at preparedAsked
  obtain ⟨content, after, endedValue, preparedAfter, comesBack, given⟩ :=
    passed.comesBack grounded bounded foundSound
  have all := preparedAsked.trans preparedAfter
  have classes : after.classes = found.classes :=
    ((Exec.aloof_preparatory.toValue type value).classes_eq endedValue).trans
      ((Exec.aloof_preparatory.acceptedBy type value).classes_eq passed.accepted)
  have kept {other : Place} {held : Value} (isHeld : other.content? found = some held) :
      other.content? after = some held := Place.content?_of_prepared all classes isHeld
  obtain ⟨old, isOld⟩ := Option.isSome_iff_exists.mp present
  have presentAfter : (place.content? after).isSome := Option.isSome_iff_exists.mpr ⟨old, kept isOld⟩
  refine ⟨place.put content after, ?_, fun later laterSound sameClasses sameHeap => ?_,
    fun other held apart isHeld => (Place.content?_put_of_apart apart).trans (kept isHeld)⟩
  · refine (bind_of_ok endedNamed).trans ((bind_of_ok placed).trans ?_)
    refine (bind_of_ok passed.accepted).trans ?_
    rw [if_pos rfl]
    refine (bind_of_ok endedValue).trans ?_
    rw [comesBack.narrow]
    exact Place.write_eq presentAfter
  · have grows : found.heap.Grows later.heap := by
      rw [sameHeap]
      exact all.grows.trans place.grows_put
    have grown (ref : Ref) (isReceiver : receiver = some ref) :
        ref < between.heap.objects.size ∧ between.heap.Grows later.heap := by
      obtain ⟨rfl, old⟩ := placedOn ref (same.trans isReceiver)
      exact ⟨old, grows⟩
    obtain ⟨_, last, endedAgain, preparedLast, rfl⟩ :=
      named_again bounded sound endedNamed laterSound grown
    have phases : last.phases = found.phases := by
      rw [preparedLast.spares.phases, Machine.phases_congr sameClasses, Place.phases_put,
        Machine.phases_congr classes]
    have held : place.content? last = some content := by
      refine Place.content?_of_prepared preparedLast
        ((aloof_named className receiver).classes_eq endedAgain) ?_
      rw [Place.content?_congr sameClasses sameHeap]
      exact Place.content?_put_self presentAfter
    have written : after.heap.Retains (place.put content after).heap :=
      Place.retains_put presentAfter
    have grownAfter : after.heap.Grows (place.put content after).heap := place.grows_put
    rw [← sameHeap] at written grownAfter
    have enough := grownAfter.size.trans preparedLast.grows.size
    refine ⟨last, (bind_of_ok endedAgain).trans ?_⟩
    refine (bind_of_ok (again last phases (grows.trans preparedLast.grows) _)).trans ?_
    refine (bind_of_ok (Place.read_eq held)).trans ?_
    exact given _ (by omega) _ last (written.trans preparedLast.retains)

end Target

/-! ## Sessions -/

/-- Whether a source is a function of the host. -/
def ClassSource.isHost : ClassSource → Bool
  | .host .. => true
  | _ => false

/-- What hosts pass in a session comes back, directly and from fields. -/
structure Session.Exchanges (session : Session) : Prop where
  /-- At every moment, what may be passed where a type is declared is converted and comes back. -/
  comesBack : session.Always fun _ machine =>
    ∀ (fuel : Nat) (type : FieldType) (value : HostValue) (asked : Machine),
      value.Passed (session.setup.services fuel) machine type asked →
        ∃ content after, value.toValue type (session.setup.services fuel) asked = .ok content after ∧
          value.ComesBack (session.setup.services fuel) type content after
  /-- A field that is found is changed to what may be passed for it. It is then read as that, and
  every other field of the object, of other objects and of classes holds what it did. -/
  stores (className : String) (receiver : Option Ref) (name : String) (value : HostValue)
    (place : Target.Place) (type : FieldType) (found asked : Machine)
    (finds : Target.find className receiver name (session.setup.services session.fuel)
      session.ready = .ok (place, type) found)
    (passed : value.Passed (session.setup.services session.fuel) found type asked) :
    ∃ stored, session.perform (Target.change className receiver name value) = (.ok (), stored) ∧
      (stored.perform (Target.look className receiver name)).1 = .ok (value.widened type) ∧
      ∀ (other : Target.Place) (content : Value), other.Apart place →
        other.content? found = some content → other.content? stored.machine = some content

namespace Session

variable {options : Options} {session : Session}

theorem perform_of_ok {α : Type} {action : Exec α} {value : α} {after : Machine}
    (ended : action (session.setup.services session.fuel) session.ready = .ok value after) :
    session.perform action = (.ok value, ⟨session.setup, session.fuel, after⟩) := by
  obtain ⟨setup, fuel, machine⟩ := session
  unfold perform
  dsimp only
  change action (setup.services fuel) { machine with depth := 0 } = _ at ended
  rw [ended]

namespace Reached

/-- Whatever follows the regime of sound machines leaves a sound machine. -/
theorem sound_after (hosted : Hosted options) (reached : Reached options session) {α : Type}
    {action : Exec α} {gives : α → Prop}
    (follows : (Regime.sound session.setup session.machine.heap).Follows session.setup gives action)
    {value : α} {after : Machine}
    (ended : action (session.setup.services session.fuel) session.ready = .ok value after) :
    after.Sound session.setup.sources := by
  have trusts : (Regime.sound session.setup session.machine.heap).Trusts session.setup
      fun _ _ => false := fun _ _ stops => by cases stops
  have ends := ((reached.governs hosted session.machine.heap).watched_eq trusts
    (follows.weaken fun _ _ => trivial) session.fuel
    (regular_ready (reached.sound hosted).1)).2
  rw [ended] at ends
  exact ends.good.1

/-- **Values come back**: whatever has happened in a session, what the host may pass where a type is
declared is converted to a value of the type, and the host gets it back, widened to the type; and so
does a field that is changed and then read, while all other fields stay as they are. -/
theorem exchanges (hosted : Hosted options) (reached : Reached options session)
    (hosts : ∀ lookup size, .host lookup size ∈ session.setup.sources →
      (ClassSource.host lookup size).Bounded) : session.Exchanges := by
  have bounded := ClassSource.bounded_of_hosts hosts
  have grounded := reached.grounded
  refine ⟨(reached.always hosted).weaken fun _ machine regular fuel type value asked passed => ?_, ?_⟩
  · rw [← Setup.withInvoker_services] at passed ⊢
    obtain ⟨content, after, ended, -, comesBack, -⟩ :=
      passed.comesBack grounded bounded regular.good.1
    exact ⟨content, after, ended, comesBack⟩
  intro className receiver name value place type found asked finds passed
  have readySound := (regular_ready (reached.sound hosted).1).good.1
  have follows : (Regime.sound session.setup session.machine.heap).Follows session.setup _
      (Target.find className receiver name) :=
    (Regime.sound_named className receiver).bind fun _ defined =>
      Regime.sound_place grounded defined name
  have foundSound := reached.sound_after hosted follows finds
  rw [← Setup.withInvoker_services] at finds passed
  obtain ⟨after, changed, looks, kept⟩ :=
    Target.exists_change grounded bounded readySound foundSound finds passed
  rw [Setup.withInvoker_services] at changed looks
  have performed := perform_of_ok changed
  refine ⟨_, performed, ?_, kept⟩
  have reachedAfter : Reached options (session.perform _).2 :=
    .performed reached (.setField className receiver name value)
  have afterSound := (regular_ready (reachedAfter.sound hosted).1).good.1
  change Machine.Sound (session.perform (Target.change className receiver name value)).2.setup.sources
    (session.perform (Target.change className receiver name value)).2.ready at afterSound
  rw [performed] at afterSound
  obtain ⟨last, looked⟩ := looks _ afterSound rfl rfl
  rw [perform_of_ok looked]

/-- The limit of gauges may be changed to a byte. -/
theorem exchanges_gauges :
    Hosted gaugeOptions ∧ Reached gaugeOptions gauges ∧
      (∀ lookup size, .host lookup size ∈ gauges.setup.sources →
        (ClassSource.host lookup size).Bounded) ∧
      (∃ place found, Target.find "Gauge" none "limit" (gauges.setup.services gauges.fuel)
          gauges.ready = .ok (place, .byte) found ∧
        (HostValue.byte 7).Passed (gauges.setup.services gauges.fuel) found .byte found) ∧
      gauges.Exchanges := by
  have reached : Reached gaugeOptions gauges := .started start_gauges
  have facts : gauges.setup.sources.any ClassSource.isHost = false ∧
      (match Target.find "Gauge" none "limit" (gauges.setup.services gauges.fuel) gauges.ready with
      | .ok (_, type) _ => some type
      | .error .. => none) = some .byte := by
    decide +kernel
  obtain ⟨none, typed⟩ := facts
  have hosts (lookup : String → Except Error (Option (List UInt8))) (size : Nat)
      (member : .host lookup size ∈ gauges.setup.sources) :
      (ClassSource.host lookup size).Bounded :=
    absurd rfl (List.any_eq_false.mp none _ member)
  refine ⟨hosted_gauges, reached, hosts, ?_, exchanges hosted_gauges reached hosts⟩
  generalize Target.find "Gauge" Option.none "limit" _ _ = finding at typed ⊢
  cases finding with
  | error => cases typed
  | ok both found =>
    obtain ⟨place, type⟩ := both
    cases typed
    exact ⟨place, found, rfl, rfl, nofun, nofun⟩

end Reached

end Session

end JavaMachine
