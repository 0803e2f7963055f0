import JavaMachine.Proofs.Host.Calls
import JavaMachine.Proofs.Host.Fields
import JavaMachine.Proofs.Instruction.Range
import Mathlib

/-! # Calls of instructions

The operands of a call instruction refer to a method, and its arguments are on top of the stack, the
receiver below them. The instruction takes off as many slots as the method that it refers to has for
its arguments, chooses the method that runs, and passes the slots to it (`Step.execute_passes`). -/

namespace JavaMachine

open Execution (Delivers delivers)
open Operation (bind_of_ok exists_of_bind_ok)
open Value (AreOf toSlots passed)

/-! ## Arguments on the stack -/

namespace Frame

variable {frame : Frame} {base slots : List Value} {count : Nat}

/-- Slots that are on top of the stack are taken off. -/
theorem popSlots_of_last (last : frame.stack.toList = base ++ slots) (size : slots.length = count) :
    popSlots count frame = .ok slots (frame.withStack base) := by
  rcases popSlots_checked count frame with ⟨rest, taken, split, taken_size, popped⟩ | ⟨short, -⟩
  · have lists : rest.toList ++ taken.toList = base ++ slots := by
      rw [← last, split, Array.toList_append]
    obtain ⟨front, back⟩ := List.append_inj' lists (by simp [taken_size, size])
    rw [popped, back, withStack, ← front]
  · have : frame.stack.size = base.length + slots.length := by
      rw [← Array.length_toList, last, List.length_append]
    omega

end Frame

namespace Step

variable {services : Services} {state after ready : StepState} {op : Opcode}

/-- The method that the operands of a call instruction refer to, and the key under which they do. -/
structure Referred extends Candidate where
  key : String

/-- Finds the method that the operands of a call instruction refer to. -/
def findReferred (op : Opcode) : Step Referred := do
  let index ← readShort
  if op = .invokeinterface then
    let _ ← readShort
  let symbol ← methodSymbolAt index
  let (owner, position, method) ← methodAt index symbol
  return ⟨⟨owner, position, method⟩, symbol.key⟩

/-- The method that runs when an instruction calls one, on a receiver unless it is static, and what
the machine is then. -/
inductive Referred.Runs (services : Services) (machine : Machine) (referred : Referred) :
    Opcode → Option Ref → LinkedClass → Nat → Method → Machine → Prop where
  | static {owner : LinkedClass} {index : Nat} {method : Method} {after : Machine}
      (runs : referred.toCandidate.Runs services machine referred.key none owner index method
        after) :
      Runs services machine referred .invokestatic none owner index method after
  | special {ref : Ref} (dynamic : referred.method.isStatic = false) :
      Runs services machine referred .invokespecial (some ref) referred.owner referred.index
        referred.method machine
  | onObject {op : Opcode} {ref : Ref} {owner : LinkedClass} {index : Nat} {method : Method}
      {after : Machine} (onObject : op = .invokevirtual ∨ op = .invokeinterface)
      (runs : referred.toCandidate.Runs services machine referred.key (some ref) owner index method
        after) :
      Runs services machine referred op (some ref) owner index method after

theorem notes_methodSymbolAt (index : UInt16) : Notes (methodSymbolAt index) := by
  refine (notes_constantAt index).bind fun constant => ?_
  split
  · exact notes_pure _
  · exact notes_pure _
  · exact notes_fault _

theorem notes_methodAt (index : UInt16) (symbol : MethodSymbol) :
    Notes (methodAt index symbol) := by
  refine (notes_linked index symbol.owner symbol.find).bind fun link => ?_
  split
  · split
    · exact notes_pure _
    · exact notes_ofExcept (.error _)
  · exact notes_ofExcept (.error _)

/-- A reference that can be followed leads to a method of the class. -/
theorem present_of_methodAt {index : UInt16} {symbol : MethodSymbol}
    {found : LinkedClass × Nat × Method}
    (ended : methodAt index symbol services state = .ok found after) :
    found.1.method? found.2.1 = some found.2.2 := by
  obtain ⟨link, between, -, ended⟩ := exists_of_bind_ok ended
  cases link with
  | method owner position =>
    cases present : owner.method? position with
    | none =>
      simp only [present] at ended
      cases ended
    | some method =>
      simp only [present] at ended
      cases ended
      exact present
  | _ => cases ended

/-- Following the operands leads to a method of a class, and leaves the frame alone. -/
theorem findReferred_eq_ok {referred : Referred}
    (found : findReferred op services state = .ok referred after) :
    referred.owner.method? referred.index = some referred.method ∧ after.frame = state.frame := by
  have rest (index : UInt16) {state : StepState} (found : (do
      let symbol ← methodSymbolAt index
      let (owner, position, method) ← methodAt index symbol
      return (⟨⟨owner, position, method⟩, symbol.key⟩ : Referred)) services state =
        .ok referred after) :
      referred.owner.method? referred.index = some referred.method ∧
        after.frame = state.frame := by
    obtain ⟨symbol, between, named, found⟩ := exists_of_bind_ok found
    obtain ⟨method, last, linked, ended⟩ := exists_of_bind_ok found
    cases ended
    exact ⟨present_of_methodAt linked, (notes_methodAt index symbol _ _ _ _ linked).frame.trans
      (notes_methodSymbolAt index _ _ _ _ named).frame⟩
  obtain ⟨index, between, read, found⟩ := exists_of_bind_ok found
  rw [← (notes_readShort _ _ _ _ read).frame]
  by_cases more : op = .invokeinterface
  · simp only [more, ↓reduceIte] at found
    obtain ⟨unused, further, skipped, found⟩ := exists_of_bind_ok found
    rw [← (notes_readShort _ _ _ _ skipped).frame]
    exact rest index found
  · simp only [more, ↓reduceIte] at found
    exact rest index found

namespace Referred

variable (referred : Referred)

/-- Calls the static method that is referred to. -/
def callStatic : Step Next := do
  if !referred.method.isStatic then
    fault (.staticCall referred.key)
  Exec.ensureInitialized referred.owner
  let arguments ← Frame.popSlots referred.method.argumentSlots
  return .call referred.owner referred.index arguments

/-- Calls the very method that is referred to, on an object. -/
def callSpecial : Step Next := do
  if referred.method.isStatic then
    fault (.specialCall referred.key)
  let arguments ← Frame.popSlots referred.method.argumentSlots
  match arguments with
  | .reference none :: _ => Exec.throwNew ClassName.nullPointerException none
  | _ => return .call referred.owner referred.index arguments

/-- Calls the method that the class of an object has for the one that is referred to. -/
def callOnObject (op : Opcode) : Step Next := do
  if referred.method.isStatic then
    fault (.dispatchedCall op.mnemonic referred.key)
  let arguments ← Frame.popSlots referred.method.argumentSlots
  let ref ← receiver arguments
  if referred.method.isPrivate then
    return .call referred.owner referred.index arguments
  else
    let c := (← Exec.object ref).type
    match c.findMethod? referred.key with
    | some (owner, position) => return .call owner position arguments
    | none => Exec.fail (.noSuchMethod c.name referred.key)

end Referred

theorem execute_invokestatic :
    execute .invokestatic = findReferred .invokestatic >>= Referred.callStatic := by
  simp only [findReferred, reduceCtorEq, ↓reduceIte, bind_assoc, pure_bind]
  rfl

theorem execute_invokespecial :
    execute .invokespecial = findReferred .invokespecial >>= Referred.callSpecial := by
  simp only [findReferred, reduceCtorEq, ↓reduceIte, bind_assoc, pure_bind]
  rfl

theorem execute_onObject (onObject : op = .invokevirtual ∨ op = .invokeinterface) :
    execute op = findReferred op >>= fun referred => referred.callOnObject op := by
  rcases onObject with rfl | rfl
  · simp only [findReferred, reduceCtorEq, ↓reduceIte, bind_assoc, pure_bind]
    rfl
  · simp only [findReferred, ↓reduceIte, bind_assoc, pure_bind]
    rfl

section Passes

variable {referred : Referred} {receiver : Option Ref} {owner : LinkedClass} {index : Nat}
  {method : Method} {machine : Machine} {arguments base : List Value}

/-- The slots of the arguments, and of the receiver below them, are taken off the stack. -/
theorem popSlots_passed (state : StepState) (receiver : Option Ref)
    (areOf : AreOf arguments method.descriptor.parameters)
    (static : method.isStatic = receiver.isNone)
    (last : state.frame.stack.toList = base ++ toSlots (passed receiver arguments)) :
    (liftM (Frame.popSlots method.argumentSlots) : Step (List Value)) services state =
      .ok (toSlots (passed receiver arguments))
        { state with frame := state.frame.withStack base } := by
  apply onFrame_of_ok
  exact Frame.popSlots_of_last last (length_toSlots_passed areOf static)

/-- Calls on an object choose the method that runs. -/
theorem Referred.callOnObject_of_runs {ref : Ref}
    (runs : referred.toCandidate.Runs services ready.machine referred.key (some ref) owner index
      method machine)
    (areOf : AreOf arguments referred.method.descriptor.parameters)
    (last : ready.frame.stack.toList = base ++ toSlots (passed (some ref) arguments)) :
    referred.callOnObject op services ready =
      .ok (.call owner index (toSlots (passed (some ref) arguments)))
        { ready with machine, frame := ready.frame.withStack base } := by
  unfold callOnObject
  cases runs with
  | itself dynamic hidden =>
    simp only [dynamic, hidden, Bool.false_eq_true, ↓reduceIte]
    rw [bind_of_ok (popSlots_passed ready (some ref) areOf dynamic last)]
    rfl
  | selected dynamic inherited selects =>
    have given (state : StepState) :
        Step.receiver (toSlots (passed (some ref) arguments)) services state = .ok ref state := rfl
    have held (state : StepState) : (liftM (Exec.object ref) : Step HeapObject) services state =
        .ok (state.machine.heap.get ref) state := rfl
    simp only [dynamic, inherited, Bool.false_eq_true, ↓reduceIte]
    rw [bind_of_ok (popSlots_passed ready (some ref) areOf dynamic last)]
    rw [bind_of_ok (given _), bind_of_ok (held _), selects.found]
    rfl

/-- **A call instruction passes what is on the stack**: the arguments of the method that it refers
to, and the receiver below them. -/
theorem execute_passes
    (found : findReferred op services state = .ok referred ready)
    (runs : referred.Runs services ready.machine op receiver owner index method machine)
    (areOf : AreOf arguments referred.method.descriptor.parameters)
    (last : state.frame.stack.toList = base ++ toSlots (passed receiver arguments)) :
    execute op services state = .ok (.call owner index (toSlots (passed receiver arguments)))
        { ready with machine, frame := state.frame.withStack base } ∧
      Delivers owner index method receiver arguments (toSlots (passed receiver arguments)) := by
  obtain ⟨present, same⟩ := findReferred_eq_ok found
  rw [← same] at last ⊢
  cases runs with
  | static runs =>
    refine ⟨?_, runs.delivers present areOf⟩
    cases runs with
    | static isStatic initialized =>
      have prepared : (liftM (Exec.ensureInitialized referred.owner) : Step Unit) services ready =
          .ok () { ready with machine } := onMachine_eq_of_ok initialized
      rw [execute_invokestatic, bind_of_ok found, Referred.callStatic]
      simp only [isStatic, Bool.not_true, Bool.false_eq_true, ↓reduceIte]
      rw [bind_of_ok prepared]
      exact bind_of_ok (popSlots_passed { ready with machine } none areOf isStatic last)
  | special dynamic =>
    refine ⟨?_, delivers present areOf dynamic⟩
    rw [execute_invokespecial, bind_of_ok found, Referred.callSpecial]
    simp only [dynamic, Bool.false_eq_true, ↓reduceIte]
    rw [bind_of_ok (popSlots_passed ready (some _) areOf dynamic last)]
    rfl
  | onObject onObject runs =>
    refine ⟨?_, runs.delivers present areOf⟩
    rw [execute_onObject onObject, bind_of_ok found]
    exact referred.callOnObject_of_runs runs areOf last

end Passes

end Step

end JavaMachine
