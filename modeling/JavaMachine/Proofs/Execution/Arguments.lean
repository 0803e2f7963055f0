import JavaMachine.Proofs.Execution.Call
import JavaMachine.Proofs.Value
import Mathlib

/-! # How arguments reach the method that is called

A call passes slots: the receiver, if there is one, then the arguments, with a filler behind each
long and double. A method with code finds them in its locals, a native method gets the values
without the fillers. Each looks for its parameters where its descriptor and its kind say that they
are. If the method is static exactly when it is called without a receiver, and the values are of the
types of its parameters, they are there (`Execution.delivers`). -/

namespace JavaMachine

/-! ## Values and their slots -/

namespace Value

variable {value : Value} {type : FieldType} {values : List Value} {types : List FieldType}

/-- The values are of the types, one of each. -/
def AreOf (values : List Value) (types : List FieldType) : Prop :=
  List.Forall₂ (fun value type => value.kind = .value type.kind) values types

theorem isWide_of_kind (kind : value.kind = .value type.kind) : value.isWide = type.isWide := by
  cases value <;> cases type <;> first | rfl | cases kind

theorem ne_top_of_kind (kind : value.kind = .value type.kind) : value ≠ top := by
  rintro rfl
  cases kind

theorem AreOf.ne_top (areOf : AreOf values types) : ∀ value ∈ values, value ≠ top := by
  induction areOf with
  | nil => simp
  | cons kind areOf ih => exact List.forall_mem_cons.mpr ⟨ne_top_of_kind kind, ih⟩

theorem AreOf.exists_value (areOf : AreOf values types) {k : Nat}
    (parameter : types[k]? = some type) :
    ∃ value, values[k]? = some value ∧ value.kind = .value type.kind := by
  induction areOf generalizing k with
  | nil => cases parameter
  | @cons value _ values _ kind areOf ih =>
    cases k with
    | zero =>
      obtain rfl := Option.some.inj parameter
      exact ⟨value, rfl, kind⟩
    | succ k => exact ih parameter

theorem toSlots_append (front back : List Value) :
    toSlots (front ++ back) = toSlots front ++ toSlots back := by
  simp [toSlots]

/-- The values take as many slots as their types. -/
theorem length_toSlots (areOf : AreOf values types) :
    (toSlots values).length = (types.map FieldType.slots).sum := by
  induction areOf with
  | nil => rfl
  | @cons value type values types kind areOf ih =>
    have first : (toSlots [value]).length = type.slots := by
      by_cases wide : type.isWide
      · simp [toSlots, FieldType.slots, isWide_of_kind kind, wide]
      · simp [toSlots, FieldType.slots, isWide_of_kind kind, wide]
    rw [← List.singleton_append, toSlots_append, List.length_append, first, ih, List.map_cons,
      List.sum_cons]

/-- A value stands behind the slots of the values before it, and its filler behind it. -/
theorem getElem?_toSlots (areOf : AreOf values types) {k : Nat} (here : values[k]? = some value) :
    (toSlots values)[((types.take k).map FieldType.slots).sum]? = some value ∧
      (value.isWide →
        (toSlots values)[((types.take k).map FieldType.slots).sum + 1]? = some top) := by
  obtain ⟨inside, rfl⟩ := List.getElem?_eq_some_iff.mp here
  have before := length_toSlots (List.forall₂_take k areOf)
  have split : toSlots values =
      toSlots (values.take k) ++ (toSlots [values[k]] ++ toSlots (values.drop (k + 1))) := by
    rw [← toSlots_append, List.singleton_append, ← List.drop_eq_getElem_cons inside,
      ← toSlots_append, List.take_append_drop]
  rw [split, ← before]
  constructor
  · rw [List.getElem?_append_right le_rfl, Nat.sub_self]
    by_cases wide : values[k].isWide
    · simp [toSlots, wide]
    · simp [toSlots, wide]
  · intro wide
    rw [List.getElem?_append_right (Nat.le_add_right _ 1), Nat.add_sub_cancel_left]
    simp [toSlots, wide]

/-- Dropping the fillers gives the values back. -/
theorem ofSlots_toSlots (proper : ∀ value ∈ values, value ≠ top) :
    ofSlots (toSlots values) = values := by
  induction values with
  | nil => rfl
  | cons value values ih =>
    obtain ⟨first, others⟩ := List.forall_mem_cons.mp proper
    have single : ofSlots (toSlots [value]) = [value] := by
      by_cases wide : value.isWide
      · simp [toSlots, ofSlots, wide, first]
      · simp [toSlots, ofSlots, wide, first]
    have split : ofSlots (toSlots [value] ++ toSlots values) =
        ofSlots (toSlots [value]) ++ ofSlots (toSlots values) := List.filter_append ..
    rw [← List.singleton_append, toSlots_append, split, single, ih others]

/-- The values of a call: the receiver, if there is one, before the arguments. -/
def passed (receiver : Option Ref) (arguments : List Value) : List Value :=
  (receiver.map fun ref => reference (some ref)).toList ++ arguments

theorem toSlots_passed (receiver : Option Ref) (arguments : List Value) :
    toSlots (passed receiver arguments) =
      (receiver.map fun ref => reference (some ref)).toList ++ toSlots arguments := by
  cases receiver <;> rfl

end Value

open Value (AreOf toSlots passed)

/-! ## Where parameters are looked for -/

namespace MethodDescriptor

theorem parameterSlots_eq (descriptor : MethodDescriptor) :
    descriptor.parameterSlots = (descriptor.parameters.map FieldType.slots).sum := by
  rw [parameterSlots, List.sum_eq_foldr, List.foldr_map]

/-- The local in which a parameter begins, behind the slots of those before it and the receiver. -/
def localOf (descriptor : MethodDescriptor) (receiver : Option Ref) (k : Nat) : Nat :=
  ((descriptor.parameters.take k).map FieldType.slots).sum + (if receiver.isSome then 1 else 0)

end MethodDescriptor

/-- The locals of a frame hold the receiver and the arguments where its method looks for them, and
nothing else. -/
structure Frame.Holds (frame : Frame) (receiver : Option Ref) (arguments : List Value) : Prop where
  size : frame.locals.size = frame.code.maxLocals
  object (ref : Ref) (called : receiver = some ref) :
    frame.locals[0]? = some (.reference (some ref))
  argument (k : Nat) (type : FieldType)
    (parameter : frame.method.descriptor.parameters[k]? = some type) :
    ∃ value, arguments[k]? = some value ∧
      frame.locals[frame.method.descriptor.localOf receiver k]? = some value ∧
      (type.isWide → frame.locals[frame.method.descriptor.localOf receiver k + 1]? = some .top)
  unused (i : Nat) (behind : frame.method.argumentSlots ≤ i) (inside : i < frame.code.maxLocals) :
    frame.locals[i]? = some .top

section Deliver

variable {owner : LinkedClass} {index : Nat} {method : Method} {receiver : Option Ref}
  {arguments : List Value}

/-- As many slots are passed as the method has for its arguments. -/
theorem length_toSlots_passed (areOf : AreOf arguments method.descriptor.parameters)
    (static : method.isStatic = receiver.isNone) :
    (toSlots (passed receiver arguments)).length = method.argumentSlots := by
  rw [Value.toSlots_passed, List.length_append, Value.length_toSlots areOf, Method.argumentSlots,
    MethodDescriptor.parameterSlots_eq, static]
  cases receiver with
  | none => simp
  | some ref => simp [Nat.add_comm]

/-- What stands in the slots of an argument that is passed behind the receiver. -/
theorem getElem?_toSlots_passed {k : Nat} {value : Value} {descriptor : MethodDescriptor}
    (areOf : AreOf arguments descriptor.parameters) (here : arguments[k]? = some value) :
    (toSlots (passed receiver arguments))[descriptor.localOf receiver k]? = some value ∧
      (value.isWide →
        (toSlots (passed receiver arguments))[descriptor.localOf receiver k + 1]? = some .top) := by
  have found := Value.getElem?_toSlots areOf here
  rw [Value.toSlots_passed]
  cases receiver with
  | none => exact found
  | some ref => exact found

/-- A method with code that is called with the values that it declares finds them in its locals. -/
theorem Frame.exists_enter_holds {code : Code} (present : owner.method? index = some method)
    (hasCode : method.code = some code) (room : method.argumentSlots ≤ code.maxLocals)
    (areOf : AreOf arguments method.descriptor.parameters)
    (static : method.isStatic = receiver.isNone) :
    ∃ frame, Frame.enter owner index (toSlots (passed receiver arguments)) = .ok frame ∧
      frame.method = method ∧ frame.code = code ∧ frame.Holds receiver arguments := by
  have count := length_toSlots_passed areOf static
  have stands := @getElem?_toSlots_passed receiver arguments
  have whole := Value.toSlots_passed receiver arguments
  generalize toSlots (passed receiver arguments) = passes at count stands whole ⊢
  let locals := passes.toArray ++ Array.replicate (code.maxLocals - passes.length) Value.top
  have size : locals.size = code.maxLocals := by
    simp only [locals, Array.size_append, List.size_toArray, Array.size_replicate]
    omega
  have front {i : Nat} {value : Value} (found : passes[i]? = some value) :
      locals[i]? = some value := by
    obtain ⟨inside, -⟩ := List.getElem?_eq_some_iff.mp found
    rw [Array.getElem?_append_left (by simpa using inside), List.getElem?_toArray, found]
  refine ⟨⟨owner, method, code, 0, 0, locals, #[]⟩, ?_, rfl, rfl, size, ?_, ?_, ?_⟩
  · have fits : ¬ passes.length > code.maxLocals := by omega
    simp only [Frame.enter, present, hasCode, fits, ↓reduceIte]
    rfl
  · rintro ref rfl
    apply front
    rw [whole]
    rfl
  · intro k type parameter
    obtain ⟨value, here, kind⟩ := areOf.exists_value parameter
    obtain ⟨found, filler⟩ := stands areOf here
    refine ⟨value, here, front found, ?_⟩
    intro wide
    exact front (filler (Value.isWide_of_kind kind ▸ wide))
  · intro i behind inside
    have behind : method.argumentSlots ≤ i := behind
    have inside : i < code.maxLocals := inside
    rw [Array.getElem?_append_right (by simpa [count] using behind)]
    have free : i - passes.length < code.maxLocals - passes.length := by omega
    simp [free]

/-- What the callee gets when it is called with slots: the number of slots is that of its arguments;
if it has code, it starts with a frame that holds them, whether it is called from a frame or on its
own; if it is native, its function gets the values. -/
structure Execution.Delivers (owner : LinkedClass) (index : Nat) (method : Method)
    (receiver : Option Ref) (arguments slots : List Value) : Prop where
  count : slots.length = method.argumentSlots
  code (code : Code) (hasCode : method.code = some code) (ownBody : method.isBodiless = false)
    (room : method.argumentSlots ≤ code.maxLocals) :
    ∃ frame : Frame, frame.method = method ∧ frame.code = code ∧ frame.Holds receiver arguments ∧
      (∀ caller callers, call owner index slots caller callers = (do
        enter
        return ⟨frame, caller :: callers⟩)) ∧
      ∀ (setup : Setup) fuel machine,
        Exec.invoke owner index slots (setup.services (fuel + 1)) machine =
          settling (do enter; run fuel ⟨frame, []⟩)
            (fun after => { after with depth := machine.depth }) (setup.services fuel) machine
  native (isNative : method.isNative = true) (concrete : method.isAbstract = false) :
    (∀ caller callers, call owner index slots caller callers =
      callBodiless owner index slots caller callers) ∧
    ∀ (setup : Setup) function,
      setup.natives.lookup ⟨owner.name, method.name, method.descriptorText⟩ = some function →
        ∀ fuel machine, Exec.invoke owner index slots (setup.services (fuel + 1)) machine = (do
          enter
          settling (function ⟨owner, method, passed receiver arguments⟩)
            fun after => { after with depth := after.depth - 1 }) (setup.services fuel) machine

/-- **Arguments arrive where the callee looks for them**, if it is static exactly when it is called
without a receiver, and they are of the types of its parameters. -/
theorem Execution.delivers (present : owner.method? index = some method)
    (areOf : AreOf arguments method.descriptor.parameters)
    (static : method.isStatic = receiver.isNone) :
    Delivers owner index method receiver arguments (toSlots (passed receiver arguments)) where
  count := length_toSlots_passed areOf static
  code code hasCode ownBody room := by
    obtain ⟨frame, entered, sameMethod, sameCode, holds⟩ :=
      Frame.exists_enter_holds present hasCode room areOf static
    have body : ¬ owner.Bodiless index := by
      rintro ⟨other, found, bodiless⟩
      obtain rfl := Option.some.inj (present.symm.trans found)
      rw [ownBody] at bodiless
      cases bodiless
    refine ⟨frame, sameMethod, sameCode, holds, ?_, ?_⟩
    · intro caller callers
      simp only [call, present, ownBody, entered]
      rfl
    · intro setup fuel machine
      change invoke setup.natives (run fuel) owner index _ (setup.services fuel) machine = _
      rw [invoke_of_code body present, runCode, entered]
      rfl
  native isNative concrete := by
    have values : Value.ofSlots (toSlots (passed receiver arguments)) =
        passed receiver arguments := by
      apply Value.ofSlots_toSlots
      cases receiver with
      | none => exact areOf.ne_top
      | some ref => exact List.forall_mem_cons.mpr ⟨by simp, areOf.ne_top⟩
    refine ⟨?_, ?_⟩
    · intro caller callers
      simp only [call, present, Method.isBodiless, isNative, Bool.true_or, ↓reduceIte]
    · intro setup function registered fuel machine
      change invoke setup.natives (run fuel) owner index _ (setup.services fuel) machine = _
      simp only [invoke, present, concrete, isNative, runNative, registered, values, ↓reduceIte,
        Bool.false_eq_true]

end Deliver

end JavaMachine
