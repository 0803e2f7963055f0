import JavaMachine.Proofs.Execution.Throwables
import JavaMachine.Proofs.Host.Fields

/-! # Messages of throwables

A throwable has a message. The class of throwables declares a field for it, but the native methods,
the throwables that the machine makes and the reports to the host take the most derived field of that
name. That is one slot for each class, and nothing that is stored elsewhere changes the message
(`Session.Reached.keepsMessages`). It is the slot of the field of throwables as long as no class below
declares a field of the same name; if one does, its field gets the message
(`messageOfFault_displaced`). -/

namespace JavaMachine

open Loader (Defines)
open LinkedClass (instanceFields ownInstanceFields instanceFieldsInReach)
open Native.ThrowableMethods (constructWithMessage getMessage toText messageSlot)
open Operation (bind_of_ok exists_of_bind_ok)
open Target (Place)

/-! ## The field of throwables -/

/-- The class of throwables declares nothing but its message. -/
theorem Builtin.outline?_throwable : Builtin.outline? Builtin.throwable =
    some ⟨some ClassName.object, [(MemberName.detailMessage, .object ClassName.string, false)]⟩ := by
  decide +kernel

/-- The class of throwables has one field of instances, for the message. -/
theorem Loader.Defines.exists_message {builtin : ClassSource} {rest : List ClassSource}
    {t : LinkedClass} (built : Builtin.source = .ok builtin) (defined : Defines (builtin :: rest) t)
    (named : t.name = ClassName.throwable) :
    ∃ message : Field, t.instanceFields = [message] ∧ t.ownInstanceFields = [message] ∧
      message.name = MemberName.detailMessage ∧ message.type = .object ClassName.string ∧
      message.slot = 0 := by
  have member : Builtin.throwable ∈ Builtin.scripts := by simp [Builtin.scripts]
  obtain ⟨fields, shown, -, layout⟩ := defined.outline built member named (by decide +kernel)
  obtain ⟨superclass, listed⟩ :=
    Builtin.Outline.mk.inj (Option.some.inj (Builtin.outline?_throwable.symm.trans shown))
  obtain ⟨root, extended, rootNamed⟩ := Option.map_eq_some_iff.mp superclass.symm
  have rootDefined := defined.linksTo_defined (.superclass extended)
  have none := rootDefined.instanceFields_root built rootNamed
  obtain ⟨field, rfl, declared⟩ : ∃ field, fields = [field] ∧
      (field.name, field.type, field.flags.isStatic) =
        (MemberName.detailMessage, .object ClassName.string, false) := by
    obtain ⟨field, others, rfl, declared, nothing⟩ := List.map_eq_cons_iff.mp listed.symm
    obtain rfl := List.map_eq_nil_iff.mp nothing
    exact ⟨field, rfl, declared⟩
  obtain ⟨name, rest⟩ := Prod.mk.inj declared
  obtain ⟨type, plain⟩ := Prod.mk.inj rest
  have inherited : (t.superclass.map instanceFields).getD [] = [] := by
    rw [extended]
    exact none
  have own : t.instanceFields = [{ field with slot := 0 }] := by
    rw [layout, inherited, List.filter_cons_of_pos (by simp [plain])]
    rfl
  refine ⟨_, own, ?_, name, type, rfl⟩
  rw [ownInstanceFields, inherited, own]
  rfl

/-! ## What a message reads as -/

/-- What a throwable with a message shows: the name of its class, and the text of the message if there
is one. -/
def Heap.shown (heap : Heap) (exception : Ref) : Value → String
  | .reference (some message) =>
    ClassName.dotted (heap.get exception).className ++ ": " ++ (heap.get message).text?.getD ""
  | _ => ClassName.dotted (heap.get exception).className

/-- A slot of a throwable holds its message: the native methods and the report to the host give what
is there. -/
structure Machine.ReadsMessage (machine : Machine) (exception : Ref) (slot : Nat) (content : Value) :
    Prop where
  held : (machine.heap.get exception).field? slot = some content
  given (services : Services) (call : NativeCall)
    (receiver : call.arguments[0]? = some (.reference (some exception))) :
    getMessage call services machine = .ok (some content) machine
  shown (services : Services) (call : NativeCall)
    (receiver : call.arguments[0]? = some (.reference (some exception))) :
    toText call services machine =
      Exec.returnText (machine.heap.shown exception content) services machine
  reported : Session.report machine.heap (.thrown exception) =
    .thrown (machine.heap.get exception).className (machine.heap.textOf content) exception

/-- A message has stayed what it was, and so have its text and what the throwable shows. -/
structure Machine.KeepsMessage (before after : Machine) (exception : Ref) (slot : Nat)
    (content : Value) : Prop where
  reads : after.ReadsMessage exception slot content
  text : after.heap.textOf content = before.heap.textOf content
  shown : after.heap.shown exception content = before.heap.shown exception content

section Reading

variable {machine before after : Machine} {exception ref : Ref} {field : Field}
  {content : Value} {call : NativeCall} {slot : Nat} {message : Option Ref}
  {sources : List ClassSource}

theorem messageSlot_eq {services : Services}
    (found : (machine.heap.get exception).type.instanceField? MemberName.detailMessage = some field) :
    messageSlot exception services machine = .ok field.slot machine := by
  have read : Exec.object exception services machine = .ok (machine.heap.get exception) machine := rfl
  rw [messageSlot, Operation.bind_of_ok read]
  rw [found]
  rfl

theorem NativeCall.receiver_eq {services : Services}
    (receiver : call.arguments[0]? = some (.reference (some exception))) :
    call.receiver services machine = .ok exception machine := by
  have argument : call.reference 0 = pure (some exception) := by
    rw [NativeCall.reference, receiver]
  rw [NativeCall.receiver, argument]
  rfl

/-- The slot of the field in which a throwable has its message is where it is read. -/
theorem Machine.readsMessage
    (found : (machine.heap.get exception).type.instanceField? MemberName.detailMessage = some field)
    (held : (machine.heap.get exception).field? field.slot = some content) :
    machine.ReadsMessage exception field.slot content := by
  have placed (services : Services) :
      messageSlot exception services machine = .ok field.slot machine := messageSlot_eq found
  have read (services : Services) :
      (Place.«instance» exception field.slot).read services machine = .ok content machine :=
    Place.read_eq held
  have detail : Session.detailOf machine.heap exception = machine.heap.textOf content := by
    simp only [Session.detailOf, Option.bind_eq_bind, found, Option.bind_some, held]
    rcases content with - | - | - | - | ⟨_ | _⟩ | - | - <;> rfl
  refine ⟨held, fun services call receiver => ?_, fun services call receiver => ?_, ?_⟩
  · exact (bind_of_ok (NativeCall.receiver_eq receiver)).trans ((bind_of_ok (placed services)).trans
      (bind_of_ok (read services)))
  · refine (bind_of_ok (NativeCall.receiver_eq receiver)).trans ?_
    refine (bind_of_ok (placed services)).trans ((bind_of_ok (read services)).trans ?_)
    rcases content with - | - | - | - | ⟨_ | _⟩ | - | - <;> rfl
  · rw [Session.report, detail]

theorem Machine.ChangesOnly.type_eq (changes : before.ChangesOnly sources ref slot after)
    (exception : Ref) : (after.heap.get exception).type = (before.heap.get exception).type := by
  by_cases same : exception = ref
  · exact same ▸ changes.type
  · rw [changes.objects exception same]

theorem Machine.ChangesOnly.text?_eq (changes : before.ChangesOnly sources ref slot after)
    (message : Ref) : (after.heap.get message).text? = (before.heap.get message).text? := by
  by_cases same : message = ref
  · exact same ▸ changes.text
  · rw [changes.objects message same]

/-- What is stored elsewhere changes no message. -/
theorem Machine.ChangesOnly.keepsMessage (changes : before.ChangesOnly sources ref slot after)
    (found : (before.heap.get exception).type.instanceField? MemberName.detailMessage = some field)
    (apart : exception = ref → field.slot ≠ slot)
    (held : (before.heap.get exception).field? field.slot = some content) :
    before.KeepsMessage after exception field.slot content where
  reads := by
    rw [← changes.type_eq] at found
    refine Machine.readsMessage found ?_
    by_cases same : exception = ref
    · subst same
      rw [changes.slots _ (apart rfl), held]
    · rw [changes.objects exception same, held]
  text := by
    rcases content with - | - | - | - | ⟨_ | message⟩ | - | - <;> try rfl
    exact changes.text?_eq message
  shown := by
    rcases content with - | - | - | - | ⟨_ | message⟩ | - | - <;>
      simp only [Heap.shown, HeapObject.className, changes.type_eq, changes.text?_eq]

/-- What is put into the slot of the message is the message, and nothing else is changed. -/
theorem Machine.readsMessage_put (content : Value)
    (found : (before.heap.get ref).type.instanceField? MemberName.detailMessage = some field)
    (present : ((before.heap.get ref).field? field.slot).isSome) :
    before.ChangesOnly sources ref field.slot
        ((Place.«instance» ref field.slot).put content before) ∧
      ((Place.«instance» ref field.slot).put content before).ReadsMessage ref field.slot content := by
  have changes : before.ChangesOnly sources ref field.slot
      ((Place.«instance» ref field.slot).put content before) :=
    Machine.changesOnly_put present rfl fun _ _ => rfl
  refine ⟨changes, Machine.readsMessage ?_ ?_⟩
  · rw [changes.type_eq, found]
  · have held : (Place.«instance» ref field.slot).content?
        ((Place.«instance» ref field.slot).put content before) = some content :=
      Place.content?_put_self present
    exact held

/-- The constructor puts the message into its slot. -/
theorem Machine.exists_of_constructWithMessage {services : Services}
    (found : (before.heap.get ref).type.instanceField? MemberName.detailMessage = some field)
    (present : ((before.heap.get ref).field? field.slot).isSome)
    (arguments : call.arguments = [.reference (some ref), .reference message]) :
    ∃ after, constructWithMessage call services before = .ok none after ∧
      before.ChangesOnly sources ref field.slot after ∧
      after.ReadsMessage ref field.slot (.reference message) := by
  have receiver : call.receiver services before = .ok ref before :=
    NativeCall.receiver_eq (by rw [arguments]; rfl)
  have argument : call.reference 1 services before = .ok message before := by
    rw [NativeCall.reference, arguments]
    rfl
  have stored : (Place.«instance» ref field.slot).write (.reference message) services before =
      .ok () ((Place.«instance» ref field.slot).put (.reference message) before) :=
    Place.write_eq present
  refine ⟨_, ?_, Machine.readsMessage_put _ found present⟩
  exact (bind_of_ok receiver).trans ((bind_of_ok argument).trans
    ((bind_of_ok (messageSlot_eq found)).trans (bind_of_ok stored)))

end Reading

/-! ## The field of the message in classes below -/

/-- The field in which the instances of a class of throwables have their message, where `t` is the
class of all throwables: the most derived one of the name. -/
structure LinkedClass.HasMessageIn (c t : LinkedClass) (field : Field) : Prop where
  found : c.instanceField? MemberName.detailMessage = some field
  present : c.instanceFields[field.slot]? = some field
  named : field.name = MemberName.detailMessage
  /-- No other field of the name comes after it. -/
  last (other : Field) (member : other ∈ c.instanceFields)
    (sameName : other.name = MemberName.detailMessage) : other.slot ≤ field.slot
  /-- It is the one that all throwables have unless a class below that declares another one. -/
  own (alone : ∀ owner ∈ c.upwards, owner ≠ t → ∀ other ∈ owner.ownInstanceFields,
    other.name ≠ MemberName.detailMessage) : t.instanceFields = [field] ∧ field.slot = 0
  /-- Only references of its name and type are resolved to its slot, in classes that have it. -/
  reached (d : LinkedClass) (above : d ∈ c.upwards) (symbol : FieldSymbol)
    (resolved : symbol.findInstance d = .ok (.instanceField field.slot)) :
    symbol.name = field.name ∧ symbol.type = field.type ∧ field ∈ d.instanceFields

theorem LinkedClass.slot_le_of_find? {fields : List Field} {found other : Field} {name : String}
    (slots : ∀ position (field : Field), fields[position]? = some field → field.slot = position)
    (last : fields.reverse.find? (·.name == name) = some found) (member : other ∈ fields)
    (named : other.name = name) : other.slot ≤ found.slot := by
  obtain ⟨-, after, before, split, unnamed⟩ := List.find?_eq_some_iff_append.mp last
  obtain rfl : fields = before.reverse ++ found :: after.reverse := by
    rw [← List.reverse_reverse fields, split]
    simp only [List.reverse_append, List.reverse_cons, List.append_assoc, List.singleton_append]
  have slot : found.slot = before.reverse.length := slots _ _ (by
    rw [List.getElem?_append_right le_rfl, Nat.sub_self]
    rfl)
  obtain ⟨position, present⟩ := List.getElem?_of_mem member
  rw [slots _ _ present, slot]
  by_contra beyond
  rw [List.getElem?_append_right (by omega), List.getElem?_cons,
    if_neg (by omega)] at present
  have later := List.mem_reverse.mp (List.mem_of_getElem? present)
  have other := unnamed _ later
  simp [named] at other

theorem Loader.Defines.exists_hasMessageIn {sources : List ClassSource} {t c : LinkedClass}
    (bare : ∀ root, Defines sources root → root.name = ClassName.object → root.instanceFields = [])
    {message : Field} (fields : t.instanceFields = [message])
    (declared : t.ownInstanceFields = [message]) (named : message.name = MemberName.detailMessage)
    (slot : message.slot = 0) (defined : Defines sources c) (below : t ∈ c.upwards) :
    ∃ field, c.HasMessageIn t field := by
  have inherited : t.instanceFields <+: c.instanceFields := defined.instanceFields_extends bare below
  have member : message ∈ c.instanceFields :=
    inherited.subset (by rw [fields]; exact List.mem_singleton_self _)
  obtain ⟨field, found⟩ := Option.isSome_iff_exists.mp
    (List.find?_isSome (p := (·.name == MemberName.detailMessage)) |>.mpr
      ⟨message, List.mem_reverse.mpr member, beq_iff_eq.mpr named⟩)
  have sameName : field.name = MemberName.detailMessage := by
    have same := List.find?_some found
    exact beq_iff_eq.mp same
  obtain ⟨position, present⟩ :=
    List.getElem?_of_mem (List.mem_reverse.mp (List.mem_of_find?_eq_some found))
  obtain rfl := defined.slot_instanceField present
  refine ⟨field, found, present, sameName, fun other member same => ?_, fun alone => ?_,
    fun d above symbol resolved => ?_⟩
  · exact LinkedClass.slot_le_of_find? (fun _ _ => defined.slot_instanceField) found member same
  · have paired := present
    rw [← defined.map_layout bare, List.getElem?_map, Option.map_eq_some_iff] at paired
    obtain ⟨⟨owner, other⟩, paired, rfl⟩ := paired
    obtain ⟨above, own⟩ := LinkedClass.declared_of_mem_layout (List.mem_of_getElem? paired)
    obtain rfl : owner = t := by
      by_contra differs
      exact alone owner above differs _ own sameName
    rw [declared, List.mem_singleton] at own
    exact ⟨by rw [own, fields], by rw [own, slot]⟩
  · obtain ⟨owner, -, other, -, stands⟩ :=
      (defined.superclass_defined above).exists_standsFor bare resolved
    have here := stands c defined above
    have there := stands d (defined.superclass_defined above) (by
      rw [LinkedClass.upwards_eq]
      exact List.mem_cons_self)
    obtain rfl : other = field := Option.some.inj (here.present.symm.trans present)
    exact ⟨here.name.symm, here.type.symm, List.mem_of_getElem? there.present⟩

/-! ## What instructions store -/

namespace Step

variable {services : Services} {state after : StepState}

theorem machine_of_onFrame {α : Type} {operation : FrameM α} {value : α}
    (ended : onFrame operation services state = .ok value after) :
    after.machine = state.machine := by
  unfold onFrame at ended
  dsimp only at ended
  split at ended <;> cases ended
  rfl

theorem machine_of_popObject {ref : Ref} (ended : popObject services state = .ok ref after) :
    after.machine = state.machine := by
  obtain ⟨target, between, popped, ended⟩ := exists_of_bind_ok ended
  cases target with
  | none =>
    have threw : (Exec.throwNew ClassName.nullPointerException none : Exec Ref) services
        between.machine = .ok ref after.machine := Operation.of_ofExec_ok ended
    obtain ⟨_, _, _, interrupted⟩ := exists_of_bind_ok threw
    cases interrupted
  | some target =>
    cases ended
    exact machine_of_onFrame popped

theorem machine_of_checkKind {op : Opcode} {type : FieldType} {value : Value}
    (ended : checkKind op type value services state = .ok () after) :
    after.machine = state.machine := by
  unfold checkKind at ended
  split at ended <;> cases ended
  rfl

/-- What is stored in a field is stored in the slot that the reference is resolved to, and nowhere
else. -/
theorem changesOnly_of_putField (owned : Defines services.sources state.frame.owner)
    (ended : putField services state = .ok () after) :
    ∃ symbol slot between ref, findField services state = .ok (symbol, slot) between ∧
      state.machine.ChangesOnly services.sources ref slot after.machine := by
  rw [putField_eq] at ended
  obtain ⟨⟨symbol, slot⟩, between, finding, ended⟩ := exists_of_bind_ok ended
  obtain ⟨value, taken, popping, ended⟩ := exists_of_bind_ok ended
  obtain ⟨ref, left, popped, ended⟩ := exists_of_bind_ok ended
  obtain ⟨⟨⟩, checked, checking, ended⟩ := exists_of_bind_ok ended
  have stored : Exec.putField ref slot (Value.narrow symbol.type value) services checked.machine =
    .ok () after.machine := Operation.of_ofExec_ok ended
  have noted := notes_findField _ _ _ _ finding
  have same : checked.machine = between.machine :=
    (machine_of_checkKind checking).trans
      ((machine_of_popObject popped).trans (machine_of_onFrame popping))
  rw [same, Exec.putField_eq] at stored
  split at stored
  · next present =>
    rw [noted.heap] at present
    have put : after.machine = (Place.«instance» ref slot).put (Value.narrow symbol.type value)
        between.machine := by
      injection stored with _ ended
      exact ended.symm
    refine ⟨symbol, slot, between, ref, finding, put ▸ Machine.changesOnly_put present noted.heap ?_⟩
    intro c defined
    exact noted.statics c fun named => defined.eq_of_name_eq owned named
  · cases stored

end Step

/-! ## Throwables of the machine -/

theorem Exec.heap_of_allocate {services : Services} {machine after : Machine} {object : HeapObject}
    {ref : Ref} (made : allocate object services machine = .ok ref after) :
    ref = machine.heap.objects.size ∧ after.heap = (machine.heap.add object).2 := by
  cases made
  exact ⟨rfl, rfl⟩

/-- The machine puts the message into a throwable that it makes where it is read. -/
theorem Exec.exists_of_newThrowable {services : Services} {machine after : Machine}
    {className text : String} {exception : Ref} (sound : machine.Sound services.sources)
    (made : newThrowable className (some text) services machine = .ok exception after) :
    ∃ c field message, Defines services.sources c ∧ c.name = className ∧
      (after.heap.get exception).type = c ∧
      c.instanceField? MemberName.detailMessage = some field ∧
      after.ReadsMessage exception field.slot (.reference (some message)) ∧
      (after.heap.get message).text? = some text ∧
      ∀ slot ≠ field.slot, (after.heap.get exception).field? slot =
        (c.instanceFields[slot]?).map fun field => .zero field.type := by
  obtain ⟨c, loaded, loading, ended⟩ := exists_of_bind_ok made
  obtain ⟨defined, named⟩ := (sound.succeeds_load className).2 c loaded loading
  obtain ⟨⟨⟩, started, initialized, ended⟩ := exists_of_bind_ok ended
  obtain ⟨new, given, allocating, ended⟩ := exists_of_bind_ok ended
  obtain ⟨fresh, heap⟩ := heap_of_allocate allocating
  dsimp only at ended
  cases found : c.instanceField? MemberName.detailMessage with
  | none =>
    rw [found] at ended
    cases ended
  | some field =>
    rw [found] at ended
    obtain ⟨message, worded, wording, ended⟩ := exists_of_bind_ok ended
    have wording : allocate ⟨services.stringClass, .text text⟩ services given =
      .ok message worded := wording
    obtain ⟨last, wordedHeap⟩ := heap_of_allocate wording
    obtain ⟨⟨⟩, filled, filling, ended⟩ := exists_of_bind_ok ended
    cases ended
    rw [Exec.putField_eq] at filling
    split at filling
    · next present =>
      injection filling with _ ended
      subst ended
      have inside : exception < given.heap.objects.size := by
        rw [heap, Heap.size_add, fresh]
        exact Nat.lt_succ_self _
      have throwable : worded.heap.get exception = .ofClass c := by
        rw [wordedHeap, Heap.get_add_of_lt inside, heap, fresh, Heap.get_add_self]
      have string : worded.heap.get message = ⟨services.stringClass, .text text⟩ := by
        rw [wordedHeap, last, Heap.get_add_self]
      have plain : c.name ≠ ClassName.string := by
        intro string
        rw [throwable, HeapObject.ofClass, if_pos (beq_iff_eq.mpr string)] at present
        cases present
      have type : (worded.heap.get exception).type = c := by
        rw [throwable, HeapObject.ofClass, if_neg (by simpa using plain)]
      have putting : worded.ChangesOnly services.sources exception field.slot _ ∧ _ :=
        Machine.readsMessage_put (.reference (some message)) (type.symm ▸ found) present
      obtain ⟨changes, reads⟩ := putting
      refine ⟨c, field, message, defined, named, ?_, found, reads, ?_, fun slot apart => ?_⟩
      · exact (changes.type_eq _).trans type
      · exact (changes.text?_eq _).trans (by rw [string]; rfl)
      · exact (changes.slots slot apart).trans (by rw [throwable, HeapObject.field?_ofClass plain])
    · cases filling

/-! ## Regular moments -/

/-- Messages of throwables, where `t` is the class of all of them: each class below has them in one
field; the native methods, the machine and the report to the host put them there and read them there;
and what an instruction stores changes none of them unless it is stored in that field. -/
structure Machine.KeepsMessages (setup : Setup) (live : List Activation) (machine : Machine)
    (t : LinkedClass) : Prop where
  own : ∃ message, t.instanceFields = [message] ∧ message.name = MemberName.detailMessage ∧
    message.type = .object ClassName.string ∧ message.slot = 0
  classes (c : LinkedClass) (defined : Defines setup.sources c) (below : t ∈ c.upwards) :
    ∃ field, c.HasMessageIn t field
  reads (exception : Ref) (below : t ∈ (machine.heap.get exception).type.upwards) (field : Field)
    (within : (machine.heap.get exception).type.HasMessageIn t field) :
    ∃ content, machine.ReadsMessage exception field.slot content
  constructs (exception : Ref) (below : t ∈ (machine.heap.get exception).type.upwards) (field : Field)
    (within : (machine.heap.get exception).type.HasMessageIn t field) (services : Services)
    (call : NativeCall) (message : Option Ref)
    (arguments : call.arguments = [.reference (some exception), .reference message]) :
    ∃ after, constructWithMessage call services machine = .ok none after ∧
      machine.ChangesOnly setup.sources exception field.slot after ∧
      after.ReadsMessage exception field.slot (.reference message)
  makes (className text : String) (invoke : Invoker) (exception : Ref) (after : Machine)
    (made : Exec.newThrowable className (some text) (setup.withInvoker invoke) machine =
      .ok exception after) :
    ∃ c field message, Defines setup.sources c ∧ c.name = className ∧
      (after.heap.get exception).type = c ∧
      c.instanceField? MemberName.detailMessage = some field ∧
      after.ReadsMessage exception field.slot (.reference (some message)) ∧
      (after.heap.get message).text? = some text ∧
      ∀ slot ≠ field.slot, (after.heap.get exception).field? slot =
        (c.instanceFields[slot]?).map fun field => .zero field.type
  stores (frame : Frame) (member : .code frame ∈ live) (invoke : Invoker) (state after : StepState)
    (sameMachine : state.machine = machine) (sameOwner : state.frame.owner = frame.owner)
    (ended : Step.putField (setup.withInvoker invoke) state = .ok () after) :
    ∃ symbol slot between ref,
      Step.findField (setup.withInvoker invoke) state = .ok (symbol, slot) between ∧
      machine.ChangesOnly setup.sources ref slot after.machine ∧
      ∀ exception field content, (machine.heap.get exception).type.HasMessageIn t field →
        (exception = ref → field.slot ≠ slot) →
        machine.ReadsMessage exception field.slot content →
        machine.KeepsMessage after.machine exception field.slot content

theorem Regime.Regular.messages_kept {setup : Setup} {machine : Machine} {start : Heap}
    {live : List Activation} (grounded : setup.Grounded)
    (bare : ∀ root, Defines setup.sources root → root.name = ClassName.object →
      root.instanceFields = [])
    (regular : (Regime.sound setup start).Regular setup live machine) {t : LinkedClass}
    {message : Field} (fields : t.instanceFields = [message])
    (declared : t.ownInstanceFields = [message]) (named : message.name = MemberName.detailMessage)
    (type : message.type = .object ClassName.string) (slot : message.slot = 0) :
    machine.KeepsMessages setup live t := by
  have sound : machine.Sound setup.sources := regular.good.1
  have isSome {exception : Ref} {field : Field}
      (within : (machine.heap.get exception).type.HasMessageIn t field) :
      ((machine.heap.get exception).field? field.slot).isSome :=
    (sound.heap.typed exception).isSome_field? grounded.fieldless within.present
  exact {
    own := ⟨message, fields, named, type, slot⟩
    classes c defined below :=
      defined.exists_hasMessageIn bare fields declared named slot below
    reads exception _ field within := by
      obtain ⟨content, held⟩ := Option.isSome_iff_exists.mp (isSome within)
      exact ⟨content, Machine.readsMessage within.found held⟩
    constructs exception _ field within services call message arguments :=
      Machine.exists_of_constructWithMessage within.found (isSome within) arguments
    makes className text invoke exception after made := Exec.exists_of_newThrowable sound made
    stores frame member invoke state after sameMachine sameOwner ended := by
      obtain ⟨_, ⟨defined, -⟩, -⟩ := (regular.hosts frame member).method
      subst sameMachine
      rw [← sameOwner] at defined
      obtain ⟨symbol, slot, between, ref, finding, changes⟩ :=
        Step.changesOnly_of_putField defined ended
      refine ⟨symbol, slot, between, ref, finding, changes, ?_⟩
      intro exception field content within apart reads
      exact changes.keepsMessage within.found apart reads.held }

/-! ## Sessions -/

/-- Whatever a session performs, throwables keep their messages: at every moment, and whenever an
instruction is executed at a regular moment. -/
structure Session.KeepsMessages (session : Session) : Prop where
  always : session.Always fun live machine => ∀ t, Defines session.setup.sources t →
    t.name = ClassName.throwable → machine.KeepsMessages session.setup live t
  steps (live : List Activation) (machine : Machine)
    (regular : (Regime.sound session.setup session.machine.heap).Regular session.setup live machine)
    (t : LinkedClass) (defined : Defines session.setup.sources t)
    (named : t.name = ClassName.throwable) : machine.KeepsMessages session.setup live t

namespace Session.Reached

variable {options : Options} {session : Session}

/-- **A throwable has its message in one place**, the field of the name that its class has last: the
constructor changes nothing else, what is asked for the message looks there, and what is stored in
other fields does not change it. That is the field of all throwables as long as no class between
declares another one of the name. -/
theorem keepsMessages (hosted : Hosted options) (reached : Reached options session) :
    session.KeepsMessages := by
  have steps (live : List Activation) (machine : Machine)
      (regular : (Regime.sound session.setup session.machine.heap).Regular session.setup live machine)
      (t : LinkedClass) (defined : Defines session.setup.sources t)
      (named : t.name = ClassName.throwable) : machine.KeepsMessages session.setup live t := by
    obtain ⟨builtin, built, sources⟩ := reached.sources_eq
    obtain ⟨message, fields, declared, messageNamed, type, slot⟩ :=
      (sources ▸ defined : Defines (builtin :: options.sources) t).exists_message built named
    exact regular.messages_kept reached.grounded reached.instanceFields_root fields declared
      messageNamed type slot
  exact ⟨(reached.always hosted).weaken steps, steps⟩

end Session.Reached

/-! ## Faults -/

/-- A fault is a throwable with a number of its own, under the name of the message. -/
def faultScript : ClassScript where
  name := "Fault"
  superclass := some ClassName.throwable
  items := [
    .field Builtin.isPublic MemberName.detailMessage "I",
    .method Builtin.isPublic MemberName.constructor Builtin.takesMessage 0 [
      .load .reference 0, .load .reference 1,
      .call .special ClassName.throwable MemberName.constructor Builtin.takesMessage,
      .load .reference 0, .iconst 7,
      .field .putField "Fault" MemberName.detailMessage "I",
      .plain Opcode.returnVoid.byte]]

/-- A session in which there has been no fault yet. -/
@[irreducible] def faults : Session :=
  Session.opened (Options.ofScripts [faultScript] 8)

/-- Makes a fault with a message. -/
def makeFault : Exec Ref := do
  (← Session.load "Fault").construct [.string "lost"]

/-- Asks a fault for its message. -/
def askFault : Exec HostValue := do
  (← Target.named "Fault" (some 0)).call "getMessage" []

/-- The machine after a fault has been made. -/
def faultMade : Machine :=
  (faults.perform makeFault).2.machine

theorem faults_facts :
    (Session.start (Options.ofScripts [faultScript] 8)).isOk = true ∧
      (faults.perform makeFault).1.toOption = some 0 ∧
      (faultMade.heap.get 0).type.upwards.map LinkedClass.name =
        ["Fault", ClassName.throwable, ClassName.object] ∧
      (faultMade.heap.get 0).field? 0 = some .null ∧
      (faultMade.heap.get 0).field? 1 = some (.int 7) ∧
      (faultMade.heap.get 1).text? = some "lost" ∧
      refusal? ((faults.perform makeFault).2.perform askFault).1 =
        some (.virtualMachine
          (.undeclaredValue (Value.int 7).kind (.object ClassName.string))) := by
  decide +kernel

theorem reached_faults :
    Session.Reached (Options.ofScripts [faultScript] 8) (faults.perform makeFault).2 := by
  unfold faults
  exact .performed (.started (Session.start_opened faults_facts.1)) (.construct "Fault" _)

/-- A fault has been made, and its class is one of throwables. -/
theorem Session.Reached.keepsMessages_faults :
    Session.Reached.Hosted (Options.ofScripts [faultScript] 8) ∧
      Session.Reached (Options.ofScripts [faultScript] 8) (faults.perform makeFault).2 ∧
      (∃ t ∈ (faultMade.heap.get 0).type.upwards, t.name = ClassName.throwable) ∧
      (faults.perform makeFault).2.KeepsMessages := by
  refine ⟨hosted_ofScripts, reached_faults, ?_, keepsMessages hosted_ofScripts reached_faults⟩
  refine List.mem_map.mp ?_
  rw [faults_facts.2.2.1]
  exact List.mem_cons_of_mem _ List.mem_cons_self

/-- **The field of throwables is without the message** that a fault has been made with: it has been put
into the field of the fault, and the number of the fault in its place. -/
theorem messageOfFault_displaced :
    Session.Reached (Options.ofScripts [faultScript] 8) (faults.perform makeFault).2 ∧
      (faults.perform makeFault).1 = .ok 0 ∧
      (faultMade.heap.get 1).text? = some "lost" ∧
      (faultMade.heap.get 0).field? 0 = some .null ∧
      (faultMade.heap.get 0).field? 1 = some (.int 7) ∧
      ((faults.perform makeFault).2.perform askFault).1 =
        .error (.virtualMachine
          (.undeclaredValue (Value.int 7).kind (.object ClassName.string))) := by
  obtain ⟨-, made, -, own, other, text, refused⟩ := faults_facts
  refine ⟨reached_faults, ?_, text, own, other, eq_error_of_refusal refused⟩
  cases ended : (faults.perform makeFault).1 with
  | ok ref =>
    rw [ended] at made
    exact congrArg Except.ok (Option.some.inj made)
  | error error =>
    rw [ended] at made
    cases made

end JavaMachine
