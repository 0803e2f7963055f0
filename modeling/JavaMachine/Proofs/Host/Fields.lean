import JavaMachine.Proofs.Class.Inheritance
import JavaMachine.Proofs.Host.Exchange

/-! # Fields of instances in sessions

A field reference that is resolved to a slot in the class it names is used on objects of all classes
below. They have that slot, and it holds the field that the reference stands for. So what an
instruction stores there is what the next one reads, cut to the type of the field, and no other slot
of any object changes (`Session.Reached.laysOutFields`). -/

namespace JavaMachine

open Loader (Defines DeclaresFields)
open LinkedClass (instanceFields ownInstanceFields)
open Operation (bind_of_ok exists_of_bind_ok)
open Target (Place)

/-! ## Values on the stack -/

namespace Frame

variable {frame : Frame} {rest : List Value} {value : Value}

/-- A frame with other slots on its stack, the last one on top. -/
def withStack (frame : Frame) (slots : List Value) : Frame :=
  { frame with stack := slots.toArray }

theorem popSlot_of_last (last : frame.stack.toList = rest ++ [value]) :
    popSlot frame = .ok value (frame.withStack rest) := by
  have stack : frame.stack = rest.toArray.push value := by
    rw [← Array.toList_inj, last, Array.toList_push]
  unfold popSlot
  simp only [Bind.bind, EStateM.bind, get, getThe, MonadStateOf.get, EStateM.get, stack,
    Array.back?_push]
  change EStateM.Result.ok value { frame with stack := frame.stack.pop } = _
  rw [stack, Array.pop_push]
  rfl

/-- A value that is on top of the stack is taken off, with its filler if it is wide. -/
theorem pop_of_last (last : frame.stack.toList = rest ++ Value.toSlots [value])
    (proper : value ≠ .top) : pop frame = .ok value (frame.withStack rest) := by
  unfold pop
  by_cases wide : value.isWide = true
  · have slots : frame.stack.toList = (rest ++ [value]) ++ [.top] := by
      rw [last, Value.toSlots, List.flatMap_singleton, if_pos wide, List.append_assoc]
      rfl
    have filler := popSlot_of_last slots
    have again : popSlot (frame.withStack (rest ++ [value])) = .ok value (frame.withStack rest) :=
      popSlot_of_last rfl
    simp only [Bind.bind, EStateM.bind, filler, again, wide, if_true]
    rfl
  · have slots : frame.stack.toList = rest ++ [value] := by
      rw [last, Value.toSlots, List.flatMap_singleton, if_neg wide]
    have popped := popSlot_of_last slots
    simp only [Bind.bind, EStateM.bind, popped]
    cases value with
    | top => exact absurd rfl proper
    | _ => rfl

theorem push_eq_withStack (frame : Frame) (value : Value) :
    ({ frame with stack := frame.stack.push value } : Frame) =
      frame.withStack (frame.stack.toList ++ [value]) := by
  have same : frame.stack.push value = (frame.stack.toList ++ [value]).toArray := by
    rw [← Array.toList_inj, Array.toList_push]
  rw [withStack, same]

/-- A value is put on the stack, with its filler if it is wide, if there is room. -/
theorem push_of_room (room : frame.stack.size + (Value.toSlots [value]).length ≤ frame.code.maxStack) :
    push value frame = .ok () (frame.withStack (frame.stack.toList ++ Value.toSlots [value])) := by
  unfold push
  rw [Value.toSlots, List.flatMap_singleton] at room ⊢
  by_cases wide : value.isWide = true
  · rw [if_pos wide, List.length_cons, List.length_singleton] at room
    have first : pushSlot value frame = .ok () (frame.withStack (frame.stack.toList ++ [value])) := by
      rw [pushSlot_eq, if_neg (by omega), push_eq_withStack]
    have second : pushSlot .top (frame.withStack (frame.stack.toList ++ [value])) =
        .ok () (frame.withStack (frame.stack.toList ++ [value, .top])) := by
      have still : ¬ (frame.stack.toList ++ [value]).toArray.size ≥ frame.code.maxStack := by
        simp only [List.size_toArray, List.length_append, Array.length_toList, List.length_singleton]
        omega
      rw [pushSlot_eq, withStack, if_neg still, push_eq_withStack]
      simp only [withStack, List.append_assoc, List.singleton_append]
    simp only [Bind.bind, EStateM.bind, first, if_pos wide, second]
  · rw [if_neg wide, List.length_singleton] at room
    have pushed : pushSlot value frame = .ok () (frame.withStack (frame.stack.toList ++ [value])) := by
      rw [pushSlot_eq, if_neg (by omega), push_eq_withStack]
    simp only [Bind.bind, EStateM.bind, pushed, if_neg wide]
    rfl

end Frame

/-! ## Resolving a field reference -/

namespace Step

variable {services : Services} {before state after : StepState} {index : UInt16}
  {symbol : FieldSymbol} {slot : Nat}

/-- At most classes have been loaded and links noted since. -/
structure Noted (before after : StepState) : Prop where
  frame : after.frame = before.frame
  heap : after.machine.heap = before.machine.heap
  statics (c : LinkedClass) (named : c.name = before.frame.owner.name → c = before.frame.owner) :
    (Exec.stateIn c after.machine).statics = (Exec.stateIn c before.machine).statics

theorem Noted.refl (state : StepState) : Noted state state :=
  ⟨rfl, rfl, fun _ _ => rfl⟩

theorem Noted.trans (near : Noted before state) (far : Noted state after) : Noted before after where
  frame := far.frame.trans near.frame
  heap := far.heap.trans near.heap
  statics c named := (far.statics c (near.frame ▸ named)).trans (near.statics c named)

/-- What has been found without touching more than links. -/
def Notes {α : Type} (action : Step α) : Prop :=
  ∀ services state value after, action services state = .ok value after → Noted state after

section Notes

variable {α β : Type}

theorem notes_of_same {action : Step α} (same : ∀ services state value after,
    action services state = .ok value after → ∃ cursor, after = { state with cursor }) :
    Notes action := by
  intro services state value after ended
  obtain ⟨cursor, rfl⟩ := same services state value after ended
  exact ⟨rfl, rfl, fun _ _ => rfl⟩

theorem notes_pure (value : α) : Notes (pure value) :=
  notes_of_same fun _ state _ _ ended => by
    cases ended
    exact ⟨state.cursor, rfl⟩

theorem Notes.bind {action : Step α} {next : α → Step β} (first : Notes action)
    (rest : ∀ value, Notes (next value)) : Notes (action >>= next) := by
  intro services state value after ended
  obtain ⟨found, between, begun, ended⟩ := exists_of_bind_ok ended
  exact (first services state found between begun).trans (rest found services between value after ended)

theorem notes_throw (interruption : Interruption) : Notes (throw interruption : Step α) :=
  fun _ _ _ _ ended => by cases ended

theorem notes_readByte : Notes readByte :=
  notes_of_same fun _ state _ _ ended => ⟨state.cursor + 1, (readByte_eq_ok ended).2⟩

theorem readShort_eq_ok {value : UInt16} (ended : readShort services state = .ok value after) :
    after = { state with cursor := state.cursor + 2 } := by
  obtain ⟨high, between, first, ended⟩ := exists_of_bind_ok ended
  obtain ⟨low, last, second, ended⟩ := exists_of_bind_ok ended
  cases ended
  rw [(readByte_eq_ok second).2, (readByte_eq_ok first).2]

theorem notes_readShort : Notes readShort :=
  notes_of_same fun _ state _ _ ended => ⟨state.cursor + 2, readShort_eq_ok ended⟩

theorem notes_frame : Notes Step.frame :=
  notes_of_same fun _ state _ _ ended => by
    cases ended
    exact ⟨state.cursor, rfl⟩

theorem notes_fault (fault : InstructionFault) : Notes (Step.fault fault : Step α) :=
  notes_frame.bind fun _ => notes_throw _

theorem notes_ofExcept (result : Except Error α) : Notes (onMachine (Exec.ofExcept result)) := by
  cases result with
  | ok value => exact notes_pure value
  | error error => exact notes_throw (.fatal error)

theorem notes_constantAt (index : UInt16) : Notes (constantAt index) := by
  refine notes_frame.bind fun frame => ?_
  dsimp only
  split
  · exact notes_pure _
  · exact notes_ofExcept (.error _)

theorem notes_fieldSymbolAt (index : UInt16) : Notes (fieldSymbolAt index) := by
  refine (notes_constantAt index).bind fun constant => ?_
  split
  · exact notes_pure _
  · exact notes_fault _

theorem notes_linkAt (index : UInt16) : Notes (linkAt index) :=
  notes_of_same fun _ state _ _ ended => by
    cases ended
    exact ⟨state.cursor, rfl⟩

theorem notes_setLink (index : UInt16) (link : Linkage) : Notes (setLink index link) := by
  intro services state value after ended
  cases ended
  refine ⟨rfl, rfl, fun c named => ?_⟩
  change (Exec.stateIn c (Exec.withClass state.frame.owner _ state.machine)).statics = _
  by_cases same : c.name = state.frame.owner.name
  · obtain rfl := named same
    rw [Exec.stateIn_withClass]
  · rw [Exec.stateIn, Exec.withClass, Exec.lookup_alter, if_neg same]
    rfl

theorem notes_load (name : String) : Notes (onMachine (Exec.load name)) := by
  intro services state value after ended
  unfold onMachine Exec.load at ended
  dsimp only at ended
  cases loading : Loader.load services.sources name state.machine.loaded with
  | ok c loaded =>
    rw [loading] at ended
    cases ended
    exact ⟨rfl, rfl, fun _ _ => rfl⟩
  | error error loaded =>
    rw [loading] at ended
    cases ended

theorem notes_classNamed (index : UInt16) (name : String) : Notes (classNamed index name) := by
  refine (notes_linkAt index).bind fun link => ?_
  split
  · exact notes_pure _
  · exact (notes_load name).bind fun c => (notes_setLink index _).bind fun _ => notes_pure _

theorem notes_linked (index : UInt16) (name : String) (find : LinkedClass → Except Error Linkage) :
    Notes (linked index name find) := by
  have found : Notes (do
      let c ← classNamed index name
      let link ← Exec.ofExcept (find c)
      setLink index link
      return link : Step Linkage) :=
    (notes_classNamed index name).bind fun c => (notes_ofExcept (find c)).bind fun link =>
      (notes_setLink index link).bind fun _ => notes_pure _
  refine (notes_linkAt index).bind fun link => ?_
  split
  · exact found
  · exact found
  · exact notes_pure _

theorem notes_instanceSlot (index : UInt16) (symbol : FieldSymbol) :
    Notes (instanceSlot index symbol) := by
  refine (notes_linked index symbol.owner symbol.findInstance).bind fun link => ?_
  split
  · exact notes_pure _
  · exact notes_fault _

end Notes

/-- The field reference that the operands of an instruction name, and the slot of instances that it
is resolved to. -/
def findField : Step (FieldSymbol × Nat) := do
  let index ← readShort
  let symbol ← fieldSymbolAt index
  let slot ← instanceSlot index symbol
  return (symbol, slot)

theorem notes_findField : Notes findField :=
  notes_readShort.bind fun index => (notes_fieldSymbolAt index).bind fun symbol =>
    (notes_instanceSlot index symbol).bind fun _ => notes_pure _

theorem getField_eq : getField = (do
    let field ← findField
    let ref ← popObject
    let value ← Exec.getField ref field.2
    Frame.push value : Step Unit) := by
  simp only [getField, findField, bind_assoc, pure_bind]

theorem putField_eq : putField = (do
    let field ← findField
    let value ← Frame.pop
    let ref ← popObject
    checkKind .putfield field.1.type value
    Exec.putField ref field.2 (Value.narrow field.1.type value) : Step Unit) := by
  simp only [putField, findField, bind_assoc, pure_bind]

theorem fieldSymbolAt_eq_ok (ended : fieldSymbolAt index services state = .ok symbol after) :
    after = state ∧ state.frame.owner.constant? index = some (.fieldref symbol) := by
  unfold fieldSymbolAt constantAt at ended
  simp only [Bind.bind, ReaderT.bind, EStateM.bind, frame] at ended
  cases found : state.frame.owner.constant? index with
  | none =>
    rw [found] at ended
    cases ended
  | some constant =>
    rw [found] at ended
    cases constant with
    | fieldref other =>
      cases ended
      exact ⟨rfl, rfl⟩
    | _ => cases ended

namespace Uses

variable {found : Constant} {name : String} {c : LinkedClass} (uses : Uses services index found state)

include uses

theorem defined_of_classNamed (names : found.className? = some name)
    (ended : classNamed index name services state = .ok c after) :
    Defines services.sources c ∧ c.name = name := by
  by_cases named : ∃ d, link? index state = some (.named d)
  · obtain ⟨d, known⟩ := named
    rw [classNamed_of_named known] at ended
    cases ended
    cases uses.resolves known with
    | named constant names' defined =>
      cases constant.symm.trans uses.constant
      exact ⟨defined, Option.some.inj (names'.symm.trans names)⟩
  · rw [classNamed_of_unnamed (not_exists.mp named)] at ended
    obtain ⟨d, between, loading, ended⟩ := exists_of_bind_ok ended
    obtain ⟨_, _, noted, ended⟩ := exists_of_bind_ok ended
    cases ended
    have loaded := Operation.of_ofExec_ok (Operation.ofExec_eq_onMachine _ ▸ loading)
    exact (uses.sound.succeeds_load name).2 _ _ loaded

end Uses

/-- **What a field reference is resolved to is found in the class that it names**, whether it has been
resolved before or not. -/
theorem exists_of_instanceSlot (uses : Uses services index (.fieldref symbol) state)
    (ended : instanceSlot index symbol services state = .ok slot after) :
    ∃ c, Defines services.sources c ∧ c.name = symbol.owner ∧
      symbol.findInstance c = .ok (.instanceField slot) := by
  obtain ⟨link, between, linking, ended⟩ := exists_of_bind_ok ended
  obtain rfl : link = .instanceField slot := by
    cases link with
    | instanceField other =>
      cases ended
      rfl
    | _ => cases ended
  by_cases unresolved : Unresolved index state
  · rw [linked_of_unresolved unresolved] at linking
    obtain ⟨c, middle, naming, searching⟩ := exists_of_bind_ok linking
    obtain ⟨defined, named⟩ := uses.defined_of_classNamed rfl naming
    refine ⟨c, defined, named, ?_⟩
    cases found : symbol.findInstance c with
    | ok link =>
      rw [search_of_ok found] at searching
      cases searching
      rfl
    | error error =>
      rw [search_of_error found] at searching
      cases searching
  · simp only [Unresolved, not_forall, not_exists] at unresolved
    obtain ⟨link, known, member⟩ := unresolved
    rw [linked_of_member known member] at linking
    cases linking
    cases uses.resolves known with
    | instanceField constant defined named found typed =>
      cases constant.symm.trans uses.constant
      refine ⟨_, defined, named, ?_⟩
      rw [FieldSymbol.findInstance, found]
      exact if_pos typed

theorem exists_of_findField (sound : state.machine.Sound services.sources)
    (defined : Defines services.sources state.frame.owner)
    (ended : findField services state = .ok (symbol, slot) after) :
    ∃ c, Defines services.sources c ∧ c.name = symbol.owner ∧
      symbol.findInstance c = .ok (.instanceField slot) := by
  obtain ⟨index, between, reading, ended⟩ := exists_of_bind_ok ended
  obtain rfl := readShort_eq_ok reading
  obtain ⟨found, middle, naming, ended⟩ := exists_of_bind_ok ended
  obtain ⟨rfl, constant⟩ := fieldSymbolAt_eq_ok naming
  obtain ⟨_, last, resolving, ended⟩ := exists_of_bind_ok ended
  cases ended
  have uses : Uses services index (.fieldref symbol) { state with cursor := state.cursor + 2 } :=
    ⟨sound, defined, constant⟩
  exact exists_of_instanceSlot uses resolving

end Step

/-! ## Storing and reading -/

theorem HeapObject.text?_set (object : HeapObject) (slot : Nat) (value : Value) :
    (object.set slot value).text? = object.text? := by
  obtain ⟨type, body⟩ := object
  cases body <;> rfl

/-- One slot of one object has been changed, and nothing else of what objects and classes hold. -/
structure Machine.ChangesOnly (sources : List ClassSource) (ref : Ref) (slot : Nat)
    (before after : Machine) : Prop where
  size : after.heap.objects.size = before.heap.objects.size
  objects (other : Ref) (differs : other ≠ ref) : after.heap.get other = before.heap.get other
  type : (after.heap.get ref).type = (before.heap.get ref).type
  slots (other : Nat) (differs : other ≠ slot) :
    (after.heap.get ref).field? other = (before.heap.get ref).field? other
  text : (after.heap.get ref).text? = (before.heap.get ref).text?
  statics (c : LinkedClass) (defined : Defines sources c) :
    (Exec.stateIn c after).statics = (Exec.stateIn c before).statics

theorem Machine.changesOnly_put {sources : List ClassSource} {ref : Ref} {slot : Nat}
    {before found : Machine} {value : Value}
    (present : ((before.heap.get ref).field? slot).isSome) (heap : found.heap = before.heap)
    (statics : ∀ c, Defines sources c →
      (Exec.stateIn c found).statics = (Exec.stateIn c before).statics) :
    before.ChangesOnly sources ref slot ((Place.«instance» ref slot).put value found) where
  size := by rw [Place.put, Heap.size_set, heap]
  objects other differs := by rw [Place.put, Heap.get_set_of_ne differs, heap]
  type := by
    have old : ref < before.heap.objects.size := Place.old_of_content? present
    rw [Place.put, heap, Heap.get_set_self old]
    exact congrArg Prod.fst (HeapObject.shape_set ..)
  slots other differs := by
    have apart : (Place.«instance» ref other).Apart (.«instance» ref slot) := .inr differs
    have kept : (Place.«instance» ref other).content? ((Place.«instance» ref slot).put value found) =
        (Place.«instance» ref other).content? found := Place.content?_put_of_apart apart
    rw [← heap]
    exact kept
  text := by
    have old : ref < before.heap.objects.size := Place.old_of_content? present
    rw [Place.put, heap, Heap.get_set_self old]
    exact HeapObject.text?_set ..
  statics := statics

namespace Step

variable {services : Services} {state between : StepState} {symbol : FieldSymbol} {slot : Nat}
  {ref : Ref} {base : List Value} {value : Value}

theorem onFrame_eq_of_ok {α : Type} {operation : FrameM α} {result : α} {frame : Frame}
    (ended : operation state.frame = .ok result frame) :
    onFrame operation services state = .ok result { state with frame } := by
  unfold onFrame
  dsimp only
  rw [ended]

theorem onMachine_eq_of_ok {α : Type} {action : Exec α} {result : α} {machine : Machine}
    (ended : action services state.machine = .ok result machine) :
    onMachine action services state = .ok result { state with machine } := by
  unfold onMachine
  dsimp only
  rw [ended]

theorem popObject_of_last (last : state.frame.stack.toList = base ++ [.reference (some ref)]) :
    popObject services state = .ok ref { state with frame := state.frame.withStack base } := by
  have popped : Frame.popReference state.frame = .ok (some ref) (state.frame.withStack base) := by
    unfold Frame.popReference
    simp only [Bind.bind, EStateM.bind, Frame.popSlot_of_last last]
    rfl
  exact bind_of_ok (onFrame_eq_of_ok popped)

/-- The content of the slot replaces the object. -/
theorem getField_of_found (found : findField services state = .ok (symbol, slot) between)
    (last : state.frame.stack.toList = base ++ [.reference (some ref)])
    (held : (state.machine.heap.get ref).field? slot = some value)
    (room : base.length + (Value.toSlots [value]).length ≤ state.frame.code.maxStack) :
    getField services state = .ok () { between with
      frame := state.frame.withStack (base ++ Value.toSlots [value]) } := by
  have noted := notes_findField _ _ _ _ found
  have popped : popObject services between =
      .ok ref { between with frame := state.frame.withStack base } := by
    rw [← noted.frame] at last ⊢
    exact popObject_of_last last
  have read : onMachine (Exec.getField ref slot) services
      { between with frame := state.frame.withStack base } =
        .ok value { between with frame := state.frame.withStack base } := by
    have content : (Place.«instance» ref slot).read services between.machine = .ok value between.machine :=
      Place.read_eq (by rw [Place.content?, noted.heap, held])
    exact onMachine_eq_of_ok content
  have pushed : Frame.push value (state.frame.withStack base) =
      .ok () (state.frame.withStack (base ++ Value.toSlots [value])) := by
    have enough : (state.frame.withStack base).stack.size + (Value.toSlots [value]).length ≤
        (state.frame.withStack base).code.maxStack := by
      rw [Frame.withStack, List.size_toArray]
      exact room
    exact Frame.push_of_room enough
  rw [getField_eq]
  exact (bind_of_ok found).trans ((bind_of_ok popped).trans ((bind_of_ok read).trans
    (onFrame_eq_of_ok pushed)))

/-- A value of the kind of the field is cut to its type and stored. -/
theorem putField_of_found (found : findField services state = .ok (symbol, slot) between)
    (last : state.frame.stack.toList = base ++ Value.toSlots [.reference (some ref), value])
    (kind : value.kind = .value symbol.type.kind)
    (present : ((state.machine.heap.get ref).field? slot).isSome) :
    putField services state = .ok () { between with
      machine := (Place.«instance» ref slot).put (Value.narrow symbol.type value) between.machine
      frame := state.frame.withStack base } := by
  have noted := notes_findField _ _ _ _ found
  have taken : onFrame Frame.pop services between =
      .ok value { between with frame := state.frame.withStack (base ++ [.reference (some ref)]) } := by
    have proper : value ≠ .top := fun top => by
      rw [top] at kind
      cases kind
    rw [← noted.frame] at last ⊢
    refine onFrame_eq_of_ok (Frame.pop_of_last ?_ proper)
    rw [last, List.append_assoc]
    rfl
  have popped : popObject services
      { between with frame := state.frame.withStack (base ++ [.reference (some ref)]) } =
        .ok ref { between with frame := state.frame.withStack base } := popObject_of_last rfl
  have checked : checkKind .putfield symbol.type value services
      { between with frame := state.frame.withStack base } =
        .ok () { between with frame := state.frame.withStack base } := by
    rw [checkKind, if_neg (not_not_intro kind)]
    rfl
  have stored : (Place.«instance» ref slot).write (Value.narrow symbol.type value) services
      between.machine = .ok () ((Place.«instance» ref slot).put (Value.narrow symbol.type value)
        between.machine) :=
    Place.write_eq (by rw [Place.content?, noted.heap]; exact present)
  rw [putField_eq]
  exact (bind_of_ok found).trans ((bind_of_ok taken).trans ((bind_of_ok popped).trans
    ((bind_of_ok checked).trans (onMachine_eq_of_ok stored))))

end Step

/-! ## Layouts of objects -/

/-- A new instance has the zero of its type in the slot of every field. -/
theorem HeapObject.field?_ofClass {c : LinkedClass} (plain : c.name ≠ ClassName.string)
    (position : Nat) : (HeapObject.ofClass c).field? position =
      (c.instanceFields[position]?).map fun field => .zero field.type := by
  rw [HeapObject.ofClass, if_neg (by simpa using plain), HeapObject.field?]
  dsimp only
  rw [List.getElem?_toArray, List.getElem?_map]

/-- The reference that an instruction refers to is resolved to a slot in a class `c`. What is stored
there, in an object of any class below, is cut to the type of the field; that is what is read again,
through any reference that is resolved to the slot, and nothing else is changed. -/
structure Step.AccessesField (services : Services) (state : StepState) (symbol : FieldSymbol)
    (slot : Nat) (c : LinkedClass) : Prop where
  defined : Defines services.sources c
  named : c.name = symbol.owner
  found : symbol.findInstance c = .ok (.instanceField slot)
  reads (ref : Ref) (base : List Value) (below : c ∈ (state.machine.heap.get ref).type.upwards)
    (last : state.frame.stack.toList = base ++ [.reference (some ref)]) :
    ∃ value, (state.machine.heap.get ref).field? slot = some value ∧
      (base.length + (Value.toSlots [value]).length ≤ state.frame.code.maxStack →
        ∃ read, getField services state = .ok () read ∧
          read.frame = state.frame.withStack (base ++ Value.toSlots [value]) ∧
          read.machine.heap = state.machine.heap)
  stores (ref : Ref) (base : List Value) (value : Value)
    (below : c ∈ (state.machine.heap.get ref).type.upwards)
    (last : state.frame.stack.toList = base ++ Value.toSlots [.reference (some ref), value])
    (kind : value.kind = .value symbol.type.kind) :
    ∃ stored, putField services state = .ok () stored ∧
      stored.frame = state.frame.withStack base ∧
      state.machine.ChangesOnly services.sources ref slot stored.machine ∧
      (stored.machine.heap.get ref).field? slot = some (Value.narrow symbol.type value) ∧
      ∀ (services' : Services) (later between : StepState) (symbol' : FieldSymbol)
        (rest : List Value), findField services' later = .ok (symbol', slot) between →
        (later.machine.heap.get ref).field? slot = (stored.machine.heap.get ref).field? slot →
        later.frame.stack.toList = rest ++ [.reference (some ref)] →
        rest.length + (Value.toSlots [Value.narrow symbol.type value]).length ≤
          later.frame.code.maxStack →
        ∃ read, getField services' later = .ok () read ∧
          read.frame = later.frame.withStack
            (rest ++ Value.toSlots [Value.narrow symbol.type value]) ∧
          read.machine.heap = later.machine.heap

/-- The fields of all classes that the sources define, among them those that are loaded: each class
extends the layout of its superclass, and a slot that a reference is resolved to is that of one field
in all classes below and in their objects. -/
structure Machine.LaysOutFields (setup : Setup) (live : List Activation) (machine : Machine) :
    Prop where
  loaded (name : String) (c : LinkedClass) (known : machine.loaded.lookup name = some c) :
    c.name = name ∧ Defines setup.sources c
  classes (c : LinkedClass) (defined : Defines setup.sources c) :
    ∃ declared, DeclaresFields setup.sources c declared ∧ c.LaysOut declared
  statics (c : LinkedClass) (defined : Defines setup.sources c) :
    (Exec.stateIn c machine).statics.size = c.staticFields.length
  inherits (c : LinkedClass) (defined : Defines setup.sources c) (symbol : FieldSymbol) (slot : Nat)
    (found : symbol.findInstance c = .ok (.instanceField slot)) :
    ∃ owner ∈ c.upwards, ∃ field ∈ owner.ownInstanceFields, ∀ d, Defines setup.sources d →
      c ∈ d.upwards → symbol.StandsFor slot owner field d ∧
        ∀ ref, (machine.heap.get ref).type = d → ((machine.heap.get ref).field? slot).isSome
  makes (c : LinkedClass) (defined : Defines setup.sources c) (plain : c.name ≠ ClassName.string)
    (services : Services) : ∃ ref made, Exec.allocate (.ofClass c) services machine = .ok ref made ∧
      (made.heap.get ref).type = c ∧
      ∀ position, (made.heap.get ref).field? position =
        (c.instanceFields[position]?).map fun field => .zero field.type
  accesses (frame : Frame) (member : .code frame ∈ live) (invoke : Invoker) (state between : StepState)
    (symbol : FieldSymbol) (slot : Nat) (sameMachine : state.machine = machine)
    (sameOwner : state.frame.owner = frame.owner)
    (finds : Step.findField (setup.withInvoker invoke) state = .ok (symbol, slot) between) :
    ∃ c, Step.AccessesField (setup.withInvoker invoke) state symbol slot c

section Sound

variable {setup : Setup} {machine : Machine} (grounded : setup.Grounded)
  (bare : ∀ root, Defines setup.sources root → root.name = ClassName.object →
    root.instanceFields = [])

include grounded bare

/-- An object of a class below the one in which a reference is resolved has the slot. -/
theorem Machine.Sound.isSome_field? (sound : machine.Sound setup.sources) {c : LinkedClass}
    (defined : Defines setup.sources c) {symbol : FieldSymbol} {slot : Nat}
    (found : symbol.findInstance c = .ok (.instanceField slot)) {ref : Ref}
    (below : c ∈ (machine.heap.get ref).type.upwards) :
    ((machine.heap.get ref).field? slot).isSome := by
  obtain ⟨owner, -, field, -, stands⟩ := defined.exists_standsFor bare found
  have typed := sound.heap.typed ref
  rcases typed.provided with belowDefined | undefined
  · exact typed.isSome_field? grounded.fieldless (stands _ belowDefined below).present
  · -- What is no object has no superclass, and no field.
    rw [undefined, LinkedClass.upwards_eq, List.mem_cons] at below
    rcases below with rfl | none
    · cases found
    · cases none

theorem Step.accessesField {invoke : Invoker} {state between : StepState} {symbol : FieldSymbol}
    {slot : Nat} (sound : state.machine.Sound setup.sources)
    (defined : Defines setup.sources state.frame.owner)
    (finds : findField (setup.withInvoker invoke) state = .ok (symbol, slot) between) :
    ∃ c, AccessesField (setup.withInvoker invoke) state symbol slot c := by
  have exists_class : ∃ c, Defines setup.sources c ∧ c.name = symbol.owner ∧
      symbol.findInstance c = .ok (.instanceField slot) := exists_of_findField sound defined finds
  obtain ⟨c, cDefined, named, found⟩ := exists_class
  have noted := notes_findField _ _ _ _ finds
  refine ⟨c, cDefined, named, found, fun ref base below last => ?_,
    fun ref base value below last kind => ?_⟩
  · obtain ⟨value, held⟩ := Option.isSome_iff_exists.mp
      (sound.isSome_field? grounded bare cDefined found below)
    exact ⟨value, held, fun room => ⟨_, getField_of_found finds last held room, rfl, noted.heap⟩⟩
  · have present := sound.isSome_field? grounded bare cDefined found below
    have placed : ((Place.«instance» ref slot).content? between.machine).isSome := by
      rw [Place.content?, noted.heap]
      exact present
    have statics (d : LinkedClass) (dDefined : Defines setup.sources d) :=
      noted.statics d fun same => dDefined.eq_of_name_eq defined same
    have held : (Place.«instance» ref slot).content? _ = some (Value.narrow symbol.type value) :=
      Place.content?_put_self placed
    refine ⟨_, putField_of_found finds last kind present, rfl,
      Machine.changesOnly_put present noted.heap statics, held, ?_⟩
    intro services' later again symbol' rest findsAgain kept lastAgain room
    exact ⟨_, getField_of_found findsAgain lastAgain (kept.trans held) room, rfl,
      (notes_findField _ _ _ _ findsAgain).heap⟩

theorem Regime.Regular.fields_laid {start : Heap} {live : List Activation}
    (regular : (Regime.sound setup start).Regular setup live machine) :
    machine.LaysOutFields setup live where
  loaded name c known :=
    have ⟨named, defined, _⟩ := regular.good.1.loaded name c known
    ⟨named, defined⟩
  classes c defined := defined.exists_laysOut bare
  statics c defined := (regular.good.1.classes c defined).size
  inherits c defined symbol slot found := by
    obtain ⟨owner, above, field, declared, stands⟩ := defined.exists_standsFor bare found
    refine ⟨owner, above, field, declared, fun d dDefined below => ⟨stands d dDefined below, ?_⟩⟩
    rintro ref rfl
    exact regular.good.1.isSome_field? grounded bare defined found below
  makes c defined plain services := by
    refine ⟨_, _, rfl, ?_, fun position => ?_⟩
    · exact (congrArg HeapObject.type Heap.get_add_self).trans (by
        rw [HeapObject.ofClass, if_neg (by simpa using plain)])
    · exact (congrArg (HeapObject.field? · position) Heap.get_add_self).trans
        (HeapObject.field?_ofClass plain position)
  accesses frame member invoke state between symbol slot sameMachine sameOwner finds := by
    obtain ⟨_, ⟨defined, -⟩, -⟩ := (regular.hosts frame member).method
    subst sameMachine
    rw [← sameOwner] at defined
    exact Step.accessesField grounded bare regular.good.1 defined finds

end Sound

/-! ## Crates -/

/-- A crate has a weight, and so has a box, which is one: under the same name and of another type.
Depots weigh boxes as crates. -/
def crateScripts : List ClassScript := [
  ⟨"Crate", some ClassName.object, [
    .field Builtin.isPublic "weight" "B",
    .field Builtin.publicStatic "count" "I",
    .field Builtin.isPublic "owner" "Ljava/lang/Object;"]⟩,
  ⟨"Box", some "Crate", [
    .field Builtin.publicStatic "count" "J",
    .field Builtin.isPublic "weight" "J"]⟩,
  ⟨"Depot", some ClassName.object, [
    .method Builtin.publicStatic "weigh" "()I" 0 [
      -- `0x59` duplicates the box, which is read after its weight has been stored.
      .classUse .new "Box", .plain 0x59, .iconst 300,
      .field .putField "Crate" "weight" "B", .field .getField "Crate" "weight" "B",
      .plain (Opcode.returnValue .int).byte]]⟩]

/-- A session in which nothing has been weighed yet. -/
@[irreducible] def crates : Session :=
  Session.opened (Options.ofScripts crateScripts 8)

/-- Has a box weighed. -/
def weighBox : Exec HostValue := do
  (← Target.named "Depot" none).call "weigh" []

/-- The fields of boxes, and in which slots they are: those of instances and those of the class. -/
def boxFields (machine : Machine) :
    Option (List (String × FieldType × Nat) × List (String × FieldType × Nat)) :=
  (machine.loaded.lookup "Box").map fun c =>
    (c.instanceFields.map fun field => (field.name, field.type, field.slot),
      c.staticFields.map fun field => (field.name, field.type, field.slot))

theorem crates_facts :
    (Session.start (Options.ofScripts crateScripts 8)).isOk = true ∧
      intOf? (crates.perform weighBox).1 = some 44 ∧
      boxFields (crates.perform weighBox).2.machine =
        some ([("weight", .byte, 0), ("owner", .object ClassName.object, 1), ("weight", .long, 2)],
          [("count", .long, 0)]) := by
  decide +kernel

theorem reached_crates :
    Session.Reached (Options.ofScripts crateScripts 8) (crates.perform weighBox).2 := by
  unfold crates
  exact .performed (.started (Session.start_opened crates_facts.1)) (.call "Depot" none "weigh" [])

/-! ## Sessions -/

/-- Whatever a session performs, fields are laid out: at every moment, and whenever an instruction is
executed at a regular moment. -/
structure Session.LaysOutFields (session : Session) : Prop where
  always : session.Always fun live machine => machine.LaysOutFields session.setup live
  steps (live : List Activation) (machine : Machine)
    (regular : (Regime.sound session.setup session.machine.heap).Regular session.setup live machine) :
    machine.LaysOutFields session.setup live

namespace Session.Reached

variable {options : Options} {session : Session}

theorem instanceFields_root (reached : Reached options session) (root : LinkedClass)
    (defined : Defines session.setup.sources root) (named : root.name = ClassName.object) :
    root.instanceFields = [] := by
  obtain ⟨builtin, built, sources⟩ := reached.sources_eq
  rw [sources] at defined
  exact defined.instanceFields_root built named

/-- **Layouts extend those of superclasses in every session**: a slot that a field reference is
resolved to is that of the same field in all objects of classes below, what is stored there is read
again, and no other slot changes. -/
theorem laysOutFields (hosted : Hosted options) (reached : Reached options session) :
    session.LaysOutFields where
  always := (reached.always hosted).weaken fun _ _ =>
    Regime.Regular.fields_laid reached.grounded reached.instanceFields_root
  steps _ _ := Regime.Regular.fields_laid reached.grounded reached.instanceFields_root

/-- The weight of a box as a crate is a byte, next to its own. -/
theorem laysOutFields_crates :
    Hosted (Options.ofScripts crateScripts 8) ∧
      Reached (Options.ofScripts crateScripts 8) (crates.perform weighBox).2 ∧
      (crates.perform weighBox).1 = .ok (.int 44) ∧
      boxFields (crates.perform weighBox).2.machine =
        some ([("weight", .byte, 0), ("owner", .object ClassName.object, 1), ("weight", .long, 2)],
          [("count", .long, 0)]) ∧
      (crates.perform weighBox).2.LaysOutFields :=
  ⟨hosted_ofScripts, reached_crates, eq_ok_of_intOf crates_facts.2.1, crates_facts.2.2,
    laysOutFields hosted_ofScripts reached_crates⟩

end Session.Reached

end JavaMachine
