import JavaMachine.Proofs.Instruction.Room

/-! # The room that fields and calls need

What an instruction pushes that reads a field is as wide as the type of the field says, if the field
holds a value of that type, and what it stores takes as many slots off the stack. A call takes its
arguments off the stack and pushes nothing (`Step.Calls`). -/

namespace JavaMachine

open Operation (bind_of_ok bind_of_error exists_of_bind_ok)

namespace Step

variable {α β : Type} {services : Services} {machine : Machine} {frame : Frame} {state : StepState}
  {reads m p pop push count cursor last : Nat} {gives : α → Prop} {wanted : β → Prop}

/-! ## Fields -/

/-- The type that the reference of a `getstatic` instruction declares, and the value that the field
has. -/
def readStatic : Step (FieldType × Value) := do
  let index ← readShort
  let symbol ← fieldSymbolAt index
  let (owner, slot) ← staticSlot index symbol
  let value ← Exec.getStatic owner slot
  return (symbol.type, value)

/-- The type that the reference of a `getfield` instruction declares, and the value that the field
has. -/
def readInstance : Step (FieldType × Value) := do
  let field ← findField
  let ref ← popObject
  let value ← Exec.getField ref field.2
  return (field.1.type, value)

theorem getStatic_eq_push : getStatic = readStatic >>= fun read => onFrame (Frame.push read.2) := by
  simp only [getStatic, readStatic, bind_assoc, pure_bind]
  rfl

theorem getField_eq_push : getField = readInstance >>= fun read => onFrame (Frame.push read.2) := by
  rw [getField_eq]
  simp only [readInstance, bind_assoc, pure_bind]
  rfl

theorem hushed_readStatic : Hushed readStatic := by
  have shows := hushed_compositional.informed
  have shown : Compositional.Shown (fun (γ : Type) (action : Step γ) => Hushed action) anything
      readStatic :=
    shows.step_bind shows.step_readShort fun index _ =>
      shows.step_bind (shows.step_fieldSymbolAt index) fun _ constant =>
        shows.step_bind (shows.step_staticSlot constant) fun _ _ =>
          shows.step_bind (shows.step_onMachine (shows.exec_getStatic _ _)) fun _ _ =>
            shows.step_pure trivial
  exact hushed_compositional.step_of_shown shown

theorem hushed_readInstance : Hushed readInstance := by
  have shows := hushed_compositional.informed
  have shown : Compositional.Shown (fun (γ : Type) (action : Step γ) => Hushed action) anything (do
      let index ← readShort
      let symbol ← fieldSymbolAt index
      let slot ← instanceSlot index symbol
      let ref ← popObject
      let value ← Exec.getField ref slot
      return (symbol.type, value)) :=
    shows.step_bind shows.step_readShort fun index _ =>
      shows.step_bind (shows.step_fieldSymbolAt index) fun _ constant =>
        shows.step_bind (shows.step_instanceSlot constant) fun _ _ =>
          shows.step_bind shows.step_popObject fun _ _ =>
            shows.step_bind (shows.step_onMachine (shows.exec_getField _ _)) fun _ _ =>
              shows.step_pure trivial
  have hushed := hushed_compositional.step_of_shown shown
  simp only [readInstance, findField, bind_assoc, pure_bind]
  exact hushed

/-- The operand of an instruction is the index of a constant of its class. -/
def Operand (state : StepState) (constant : Constant) : Prop :=
  ∃ index, (∀ services machine, readShort services { state with machine } =
      .ok index { state with machine, cursor := state.cursor + 2 }) ∧
    state.frame.owner.constant? index = some constant

theorem fieldSymbolAt_eq {index : UInt16} {symbol : FieldSymbol}
    (found : state.frame.owner.constant? index = some (.fieldref symbol)) :
    fieldSymbolAt index services state = .ok symbol state := by
  unfold fieldSymbolAt constantAt
  simp only [Bind.bind, ReaderT.bind, EStateM.bind, Step.frame, found]
  rfl

/-- What begins with the reference of a field goes on with the field that it refers to. -/
theorem exists_of_operand (services : Services) {symbol : FieldSymbol}
    (operand : Operand state (.fieldref symbol))
    (next : UInt16 → FieldSymbol → Step α) : ∃ index,
      (do let index ← readShort; let symbol ← fieldSymbolAt index; next index symbol)
          services state =
        next index symbol services { state with cursor := state.cursor + 2 } := by
  obtain ⟨index, read, found⟩ := operand
  refine ⟨index, ?_⟩
  rw [bind_of_ok (read services state.machine)]
  exact bind_of_ok (fieldSymbolAt_eq found)

theorem not_isOverflow_findStatic (symbol : FieldSymbol) (c : LinkedClass) (error : Error)
    (failed : symbol.findStatic c = .error error) : ¬ error.IsOverflow := by
  rintro ⟨site, limit, rfl⟩
  unfold FieldSymbol.findStatic at failed
  split at failed
  · split at failed <;> cases failed
  · cases failed

theorem not_isOverflow_findInstance (symbol : FieldSymbol) (c : LinkedClass) (error : Error)
    (failed : symbol.findInstance c = .error error) : ¬ error.IsOverflow := by
  rintro ⟨site, limit, rfl⟩
  unfold FieldSymbol.findInstance at failed
  split at failed
  · split at failed <;> cases failed
  · cases failed

theorem idle_instanceSlot (index : UInt16) (symbol : FieldSymbol) :
    Idle services 0 anything (instanceSlot index symbol) := by
  refine (idle_linked index _ (not_isOverflow_findInstance symbol)).bind (m := 0) fun link _ => ?_
  split
  · exact idle_pure trivial
  · exact idle_fault _

section Silent

variable (silent : services.Silent)

include silent

theorem idle_staticSlot (index : UInt16) (symbol : FieldSymbol) :
    Idle services 0 anything (staticSlot index symbol) := by
  refine (idle_linked index _ (not_isOverflow_findStatic symbol)).bind (m := 0) fun link _ => ?_
  split
  · exact (idle_onMachine (Exec.blameless_ensureInitialized silent _)).bind (m := 0) fun _ _ =>
      idle_pure trivial
  · exact idle_fault _

/-- A static field is read without touching the stack. -/
theorem ran_readStatic {symbol : FieldSymbol} (operand : Operand state (.fieldref symbol)) :
    Ran services 0 0 (state.cursor + 2) state.frame (readStatic services state) ∧
      ∀ type value after, readStatic services state = .ok (type, value) after →
        type = symbol.type := by
  obtain ⟨index, same⟩ := exists_of_operand services operand fun index symbol => do
    let (owner, slot) ← staticSlot index symbol
    let value ← Exec.getStatic owner slot
    return (symbol.type, value)
  change readStatic services state = _ at same
  have idle : Idle services 0 (fun read : FieldType × Value => read.1 = symbol.type) (do
      let (owner, slot) ← staticSlot index symbol
      let value ← Exec.getStatic owner slot
      return (symbol.type, value)) :=
    (idle_staticSlot silent index symbol).bind (m := 0) fun _ _ =>
      (idle_onMachine (Exec.blameless_getStatic _ _)).bind (m := 0) fun _ _ => idle_pure rfl
  rw [same]
  exact ⟨idle.acts _ _ _, fun type value after ended => ((idle _).1 _ _ ended).1⟩

/-- A field of an object is read in place of the object. -/
theorem ran_readInstance {symbol : FieldSymbol} (operand : Operand state (.fieldref symbol)) :
    Ran services 1 0 (state.cursor + 2) state.frame (readInstance services state) ∧
      ∀ type value after, readInstance services state = .ok (type, value) after →
        type = symbol.type := by
  obtain ⟨index, same⟩ := exists_of_operand services operand fun index symbol => do
    let slot ← instanceSlot index symbol
    let ref ← popObject
    let value ← Exec.getField ref slot
    return (symbol.type, value)
  have whole : readInstance = (do
      let index ← readShort
      let symbol ← fieldSymbolAt index
      let slot ← instanceSlot index symbol
      let ref ← popObject
      let value ← Exec.getField ref slot
      return (symbol.type, value)) := by
    simp only [readInstance, findField, bind_assoc, pure_bind]
  rw [whole, same]
  constructor
  · refine (idle_instanceSlot index symbol).acts_bind (m := 0) (fun slot _ => ?_) _ _ _
    refine acts_popObject_bind silent (p := 0) fun ref => ?_
    exact (idle_onMachine (Exec.blameless_getField _ _)).acts_bind (m := 0) fun _ _ => acts_pure _
  · intro type value after ended
    obtain ⟨slot, _, -, ended⟩ := exists_of_bind_ok ended
    obtain ⟨ref, _, -, ended⟩ := exists_of_bind_ok ended
    obtain ⟨read, _, -, ended⟩ := exists_of_bind_ok ended
    cases ended
    rfl

omit silent in
/-- A value that was read is pushed. -/
theorem Ran.push_bind {action : Step (FieldType × Value)} {type : FieldType}
    (ran : Ran services pop 0 last state.frame (action services state))
    (kinds : ∀ other value after, action services state = .ok (other, value) after →
      value.kind = .value type.kind) :
    Ran services pop type.kind.slots last state.frame
      ((action >>= fun read => onFrame (Frame.push read.2)) services state) := by
  cases ended : action services state with
  | error interruption after =>
    rw [bind_of_error ended]
    refine ⟨fun _ _ => nofun, fun error _ same blamed => ?_⟩
    cases same
    have full := ran.overflows error after ended blamed
    omega
  | ok read after =>
    rw [bind_of_ok ended]
    obtain ⟨cursor, code, enough, moved⟩ := ran.completes read after ended
    obtain ⟨machine, frame, place⟩ := after
    have pushes : Acts services 0 0 type.kind.slots (onFrame (Frame.push read.2)) :=
      acts_push type.kind (kinds read.1 read.2 _ ended)
    have pushes := pushes machine frame place
    refine ⟨fun _ left same => ?_, fun error left same blamed => ?_⟩
    · obtain ⟨cursor', code', -, moved'⟩ := pushes.completes _ left same
      exact ⟨cursor'.trans cursor, code'.trans code, enough, by dsimp only at moved; omega⟩
    · have full := pushes.overflows error left same blamed
      dsimp only at code moved
      rw [code] at full
      omega

/-- What is pushed is as wide as the type of the field, if the field has a value of its type. -/
theorem ran_getStatic {symbol : FieldSymbol} (operand : Operand state (.fieldref symbol))
    (declared : ∀ type value after, readStatic services state = .ok (type, value) after →
      value.kind = .value type.kind) :
    Ran services 0 symbol.type.kind.slots (state.cursor + 2) state.frame
      (getStatic services state) := by
  obtain ⟨ran, types⟩ := ran_readStatic silent operand
  rw [getStatic_eq_push]
  refine ran.push_bind fun type value after ended => ?_
  rw [← types type value after ended]
  exact declared type value after ended

theorem ran_getField {symbol : FieldSymbol} (operand : Operand state (.fieldref symbol))
    (declared : ∀ type value after, readInstance services state = .ok (type, value) after →
      value.kind = .value type.kind) :
    Ran services 1 symbol.type.kind.slots (state.cursor + 2) state.frame
      (getField services state) := by
  obtain ⟨ran, types⟩ := ran_readInstance silent operand
  rw [getField_eq_push]
  refine ran.push_bind fun type value after ended => ?_
  rw [← types type value after ended]
  exact declared type value after ended

omit silent in
/-- What takes a whole value off the stack and goes on with it takes as many slots as the value has
where it completes. -/
theorem ran_pop_bind {next : Value → Step β} (slotForm : frame.InSlotForm)
    (each : ∀ value, Acts services m p 0 (next value))
    (kinds : ∀ value state result after, next value services state = .ok result after →
      (Value.toSlots [value]).length = count) :
    Ran services (count + p) 0 (cursor + m) frame
      ((onFrame Frame.pop >>= next) services ⟨machine, frame, cursor⟩) := by
  rcases cases_of_slotForm slotForm with empty | ⟨rest, value, proper, top⟩
  · have popped :
        Frame.pop frame = .error (.virtualMachine (.stackUnderflow frame.site)) frame := by
      unfold Frame.pop
      simp only [Bind.bind, EStateM.bind, Frame.popSlot_eq, empty, if_true]
    have ended : onFrame Frame.pop services ⟨machine, frame, cursor⟩ =
        .error (.fatal (.virtualMachine (.stackUnderflow frame.site)))
          ⟨machine, frame, cursor⟩ := by
      simp only [onFrame, popped]
    rw [bind_of_error ended]
    refine ⟨fun _ _ clash => (by cases clash), fun _ _ same blamed => ?_⟩
    cases same
    obtain ⟨⟨_, _, other⟩, -⟩ := blamed
    cases other
  · have popped : onFrame Frame.pop services ⟨machine, frame, cursor⟩ =
        .ok value ⟨machine, frame.withStack rest, cursor⟩ := by
      simp only [onFrame, Frame.pop_of_last top proper]
    rw [bind_of_ok popped]
    have ran := each value machine (frame.withStack rest) cursor
    have below : (frame.withStack rest).depth = rest.length := List.size_toArray
    have above : frame.depth = rest.length + (Value.toSlots [value]).length := by
      rw [Frame.depth, ← Array.length_toList, top, List.length_append]
    refine ⟨fun result after ended => ?_, fun error after ended blamed => ?_⟩
    · obtain ⟨place, code, enough, moved⟩ := ran.completes result after ended
      have slots := kinds value _ result after ended
      exact ⟨place, code, by omega, by omega⟩
    · have full := ran.overflows error after ended blamed
      have code : (frame.withStack rest).code = frame.code := rfl
      rw [code] at full
      omega

omit silent in
theorem idle_checkKind (op : Opcode) (type : FieldType) (value : Value) :
    Idle services 0 (fun _ => value.kind = .value type.kind) (checkKind op type value) := by
  unfold checkKind
  split
  · exact idle_fault _
  · next same => exact idle_pure (not_not.mp same)

omit silent in
theorem length_of_checked {op : Opcode} {type : FieldType} {value : Value} {after : StepState}
    (checked : checkKind op type value services state = .ok () after) :
    (Value.toSlots [value]).length = type.kind.slots := by
  have idle : Idle services 0 _ (checkKind op type value) := idle_checkKind op type value
  exact length_toSlots_of_kind ((idle state).1 _ _ checked).1

theorem ran_putStatic {symbol : FieldSymbol} (slotForm : frame.InSlotForm)
    (operand : Operand ⟨machine, frame, cursor⟩ (.fieldref symbol)) :
    Ran services symbol.type.kind.slots 0 (cursor + 2) frame
      (putStatic services ⟨machine, frame, cursor⟩) := by
  obtain ⟨index, same⟩ := exists_of_operand services operand fun index symbol => do
    let (owner, slot) ← staticSlot index symbol
    let value ← Frame.pop
    checkKind .putstatic symbol.type value
    Exec.setStatic owner slot (Value.narrow symbol.type value)
  change putStatic services _ = _ at same
  rw [same]
  refine (idle_staticSlot silent index symbol).ran_bind fun found machine _ => ?_
  refine ran_pop_bind (p := 0) (m := 0) slotForm (fun value => ?_)
    fun value state result after ended => ?_
  · exact (idle_checkKind .putstatic symbol.type value).acts_bind (m := 0) fun _ _ =>
      (idle_onMachine (Exec.blameless_setStatic _ _ _)).acts
  · obtain ⟨_, _, checked, -⟩ := exists_of_bind_ok ended
    exact length_of_checked checked

theorem ran_putField {symbol : FieldSymbol} (slotForm : frame.InSlotForm)
    (operand : Operand ⟨machine, frame, cursor⟩ (.fieldref symbol)) :
    Ran services (symbol.type.kind.slots + 1) 0 (cursor + 2) frame
      (putField services ⟨machine, frame, cursor⟩) := by
  obtain ⟨index, same⟩ := exists_of_operand services operand fun index symbol => do
    let slot ← instanceSlot index symbol
    let value ← Frame.pop
    let ref ← popObject
    checkKind .putfield symbol.type value
    Exec.putField ref slot (Value.narrow symbol.type value)
  change putField services _ = _ at same
  rw [same]
  refine (idle_instanceSlot index symbol).ran_bind fun slot machine _ => ?_
  refine ran_pop_bind (p := 1) (m := 0) slotForm (fun value => ?_)
    fun value state result after ended => ?_
  · refine acts_popObject_bind silent (p := 0) fun ref => ?_
    exact (idle_checkKind .putfield symbol.type value).acts_bind (m := 0) fun _ _ =>
      (idle_onMachine (Exec.blameless_putField _ _ _)).acts
  · obtain ⟨_, between, -, ended⟩ := exists_of_bind_ok ended
    obtain ⟨_, _, checked, -⟩ := exists_of_bind_ok ended
    exact length_of_checked checked

end Silent

/-! ## Calls -/

/-- What has begun with a frame ends with a call at the cursor where it is to end, when it
completes, and has taken the arguments off the stack. It is not to blame for a full stack. -/
structure Calls (services : Services) (last : Nat) (frame : Frame)
    (result : EStateM.Result Interruption StepState Next) : Prop where
  completes (next : Next) (after : StepState) (ended : result = .ok next after) :
    ∃ owner index arguments, next = .call owner index arguments ∧ after.cursor = last ∧
      after.frame.code = frame.code ∧ after.frame.depth + arguments.length = frame.depth
  proper (error : Error) (after : StepState) (ended : result = .error (.fatal error) after) :
    ¬ services.Blames error

theorem Idle.calls_bind {action : Step α} {next : α → Step Next}
    (idle : Idle services reads gives action)
    (rest : ∀ value machine, gives value → Calls services last frame
      (next value services ⟨machine, frame, cursor + reads⟩)) :
    Calls services last frame ((action >>= next) services ⟨machine, frame, cursor⟩) := by
  obtain ⟨completes, fails⟩ := idle ⟨machine, frame, cursor⟩
  cases ended : action services ⟨machine, frame, cursor⟩ with
  | error interruption after =>
    rw [bind_of_error ended]
    refine ⟨fun _ _ => nofun, fun error _ same => ?_⟩
    cases same
    exact fails _ _ ended
  | ok value between =>
    rw [bind_of_ok ended]
    obtain ⟨given, sameFrame, place⟩ := completes value between ended
    obtain ⟨machine, _, _⟩ := between
    cases sameFrame
    cases place
    exact rest value machine given

/-- The arguments are taken off the stack, and what follows calls with them. -/
theorem calls_popSlots {next : List Value → Step Next}
    (rest : ∀ arguments, Idle services 0
      (fun next => ∃ owner index, next = .call owner index arguments) (next arguments)) :
    Calls services cursor frame
      ((onFrame (Frame.popSlots count) >>= next) services ⟨machine, frame, cursor⟩) := by
  obtain ⟨completes, fails⟩ := Frame.draws_popSlots count frame
  cases ended : Frame.popSlots count frame with
  | error error after =>
    have failed : onFrame (Frame.popSlots count) services ⟨machine, frame, cursor⟩ =
        .error (.fatal error) ⟨machine, after, cursor⟩ := by simp only [onFrame, ended]
    rw [bind_of_error failed]
    refine ⟨fun _ _ clash => (by cases clash), fun other _ same blamed => ?_⟩
    cases same
    exact fails _ _ ended blamed.1
  | ok arguments between =>
    have worked : onFrame (Frame.popSlots count) services ⟨machine, frame, cursor⟩ =
        .ok arguments ⟨machine, between, cursor⟩ := by simp only [onFrame, ended]
    rw [bind_of_ok worked]
    obtain ⟨length, code, depth⟩ := completes arguments between ended
    obtain ⟨completesRest, failsRest⟩ := rest arguments ⟨machine, between, cursor⟩
    refine ⟨fun other after ended => ?_, failsRest⟩
    obtain ⟨⟨owner, index, rfl⟩, sameFrame, place⟩ := completesRest other after ended
    rw [sameFrame]
    exact ⟨owner, index, arguments, rfl, place, code, by rw [length]; exact depth⟩

theorem calls_check {failed : Prop} [Decidable failed] {fault : InstructionFault} {next : Step Next}
    (rest : ¬ failed → Calls services last frame (next services ⟨machine, frame, cursor⟩)) :
    Calls services last frame ((do
      if failed then Step.fault fault
      next) services ⟨machine, frame, cursor⟩) := by
  by_cases holds : failed
  · simp only [if_pos holds]
    exact (fails_fault fault).calls_bind fun _ _ => False.elim
  · simp only [if_neg holds]
    exact rest holds

theorem idle_methodSymbolAt (index : UInt16) :
    Idle services 0 anything (methodSymbolAt index) := by
  refine (idle_constantAt index).bind (m := 0) fun constant _ => ?_
  split
  · exact idle_pure trivial
  · exact idle_pure trivial
  · exact idle_fault _

theorem idle_methodAt (index : UInt16) (symbol : MethodSymbol) :
    Idle services 0 anything (methodAt index symbol) := by
  have proper (c : LinkedClass) (error : Error) (failed : symbol.find c = .error error) :
      ¬ error.IsOverflow := by
    rintro ⟨site, limit, rfl⟩
    unfold MethodSymbol.find at failed
    split at failed <;> cases failed
  refine (idle_linked index _ proper).bind (m := 0) fun link _ => ?_
  split
  · split
    · exact idle_pure trivial
    · exact idle_fail (Exec.not_isOverflow_of_ne nofun)
  · exact idle_fail (Exec.not_isOverflow_of_ne nofun)

section Silent

variable (silent : services.Silent)

include silent

theorem calls_invokeStatic (cursor : Nat) :
    Calls services (cursor + 2) frame (invokeStatic services ⟨machine, frame, cursor⟩) := by
  refine idle_readShort.calls_bind fun index machine _ => ?_
  refine (idle_methodSymbolAt index).calls_bind
    fun symbol machine _ => ?_
  refine (idle_methodAt index symbol).calls_bind
    fun found machine _ => ?_
  refine calls_check  fun _ => ?_
  refine (idle_onMachine (Exec.blameless_ensureInitialized silent found.1)).calls_bind
    fun _ machine _ => ?_
  exact calls_popSlots fun arguments => idle_pure ⟨_, _, rfl⟩

theorem calls_invokeSpecial (cursor : Nat) :
    Calls services (cursor + 2) frame (invokeSpecial services ⟨machine, frame, cursor⟩) := by
  refine idle_readShort.calls_bind fun index machine _ => ?_
  refine (idle_methodSymbolAt index).calls_bind
    fun symbol machine _ => ?_
  refine (idle_methodAt index symbol).calls_bind
    fun found machine _ => ?_
  refine calls_check  fun _ => ?_
  refine calls_popSlots fun arguments => ?_
  split
  · intro state
    obtain ⟨completes, fails⟩ :=
      idle_throwNew (α := Next) silent ClassName.nullPointerException none state
    exact ⟨fun value after ended => (completes value after ended).1.elim, fails⟩
  · exact idle_pure ⟨_, _, rfl⟩

theorem idle_receiver (arguments : List Value) :
    Idle services 0 anything (receiver arguments) := by
  unfold receiver
  split
  · exact idle_pure trivial
  · exact idle_onMachine (Exec.blameless_throwNew silent _ _)
  · exact idle_fault _

theorem calls_dispatch (op : Opcode) (index : UInt16) (cursor : Nat) :
    Calls services cursor frame (dispatch op index services ⟨machine, frame, cursor⟩) := by
  refine (idle_methodSymbolAt index).calls_bind
    fun symbol machine _ => ?_
  refine (idle_methodAt index symbol).calls_bind
    fun found machine _ => ?_
  refine calls_check  fun _ => ?_
  refine calls_popSlots fun arguments => ?_
  refine (idle_receiver silent arguments).bind (m := 0) fun ref _ => ?_
  split
  · exact idle_pure ⟨_, _, rfl⟩
  · refine (idle_object ref).bind (m := 0) fun object _ => ?_
    dsimp only
    split
    · exact idle_pure ⟨_, _, rfl⟩
    · exact idle_fail (Exec.not_isOverflow_of_ne nofun)

theorem calls_invokeVirtual (cursor : Nat) :
    Calls services (cursor + 2) frame (invokeVirtual services ⟨machine, frame, cursor⟩) :=
  idle_readShort.calls_bind fun index _ _ =>
    calls_dispatch silent .invokevirtual index (cursor + 2)

theorem calls_invokeInterface (cursor : Nat) :
    Calls services (cursor + 4) frame (invokeInterface services ⟨machine, frame, cursor⟩) :=
  idle_readShort.calls_bind fun index _ _ =>
    idle_readShort.calls_bind fun _ _ _ =>
      calls_dispatch silent .invokeinterface index (cursor + 4)

end Silent

end Step

end JavaMachine
