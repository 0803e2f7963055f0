import JavaMachine.Proofs.Host.Reached
import JavaMachine.Proofs.Instruction.Calls
import JavaMachine.Proofs.Instruction.Dispatch
import Mathlib

/-! # Arguments of calls

Methods are called by hosts, by instructions and by native methods. Each of them finds a method,
converts or takes the arguments, chooses the method that runs, which may be another one, and passes
it slots. On all these ways the slots are those of the receiver, if there is one, and of the
arguments, so that they arrive (`passesArguments`). For methods that the class of an object is asked
for that is said only of those that have the descriptor that was called and are not static: neither
is checked, and other methods look for their arguments elsewhere (`fill_misplaced`). -/

namespace JavaMachine

open Execution (Delivers delivers)
open Operation (bind_of_ok)
open Value (AreOf toSlots passed)

/-! ## Calls of native methods -/

section Native

variable {services : Services} {machine between after : Machine} {c owner : LinkedClass}
  {className name descriptor : String} {index : Nat} {method : Method} {ref : Ref}
  {called : MethodDescriptor} {arguments : List Value}

/-- **A native method passes its arguments to a static method** that the class declares. -/
theorem Exec.invokeStatic_passes (loaded : load className services machine = .ok c between)
    (initialized : ensureInitialized c services between = .ok () after)
    (declared : c.declaredMethod? name descriptor = some index)
    (present : c.method? index = some method) (static : method.isStatic = true)
    (areOf : AreOf arguments method.descriptor.parameters) :
    invokeStatic className name descriptor arguments services machine =
        invoke c index (toSlots (passed none arguments)) services after ∧
      Delivers c index method none arguments (toSlots (passed none arguments)) := by
  refine ⟨?_, delivers present areOf static⟩
  unfold invokeStatic
  rw [bind_of_ok loaded, bind_of_ok initialized]
  simp only [declared, Option.filter, present, Option.any_some, static, ↓reduceIte]
  rfl

/-- **A native method passes a receiver and its arguments** to the method that the class of the
receiver has. -/
theorem Exec.invokeVirtual_passes
    (selects : machine.Selects ref (methodKey name descriptor) called owner index method)
    (areOf : AreOf arguments called.parameters) :
    invokeVirtual ref name descriptor arguments services machine =
        invoke owner index (toSlots (passed (some ref) arguments)) services machine ∧
      Delivers owner index method (some ref) arguments
        (toSlots (passed (some ref) arguments)) := by
  have held : object ref services machine = .ok (machine.heap.get ref) machine := rfl
  rw [← selects.same] at areOf
  refine ⟨?_, delivers selects.present areOf selects.dynamic⟩
  unfold invokeVirtual
  rw [bind_of_ok held, selects.found]
  rfl

end Native

/-! ## All calls -/

/-- Arguments arrive on every way on which methods are called: what is called passes slots of the
receiver, if there is one, and of the arguments, and they are delivered to the method that runs. -/
structure PassesArguments (services : Services) : Prop where
  /-- Hosts convert the arguments to the types of the parameters of the method that they call. -/
  host {machine between ready after : Machine} {target : Target} {name : String}
    {arguments : List HostValue} {action : Exec HostValue} {called : Candidate}
    {values : List Value} {owner : LinkedClass} {index : Nat} {method : Method}
    (finds : target.Finds services machine name arguments action called between)
    (converted : called.convert arguments services between = .ok values ready)
    (runs : called.Runs services ready called.method.key target.receiver owner index method
      after) :
    action services machine =
        (Exec.invoke owner index (toSlots (passed target.receiver values)) >>= called.giveResult)
          services after ∧
      AreOf values called.method.descriptor.parameters ∧
      Delivers owner index method target.receiver values
        (toSlots (passed target.receiver values))
  constructor {machine between ready made after : Machine} {c : LinkedClass} {ref : Ref}
    {arguments : List HostValue} {called : Candidate} {values : List Value}
    (found : c.findConstructor arguments services machine = .ok called between)
    (initialized : Exec.ensureInitialized c services between = .ok () ready)
    (allocated : Exec.allocate (.ofClass c) services ready = .ok ref made)
    (converted : called.convert arguments services made = .ok values after)
    (dynamic : called.method.isStatic = false) :
    c.construct arguments services machine = (do
        let _ ← Exec.invoke c called.index (toSlots (passed (some ref) values))
        return ref) services after ∧
      AreOf values called.method.descriptor.parameters ∧
      Delivers c called.index called.method (some ref) values
        (toSlots (passed (some ref) values))
  /-- Instructions find the arguments on the stack. -/
  instruction {op : Opcode} {state ready : StepState} {referred : Step.Referred}
    {receiver : Option Ref} {owner : LinkedClass} {index : Nat} {method : Method}
    {machine : Machine} {arguments base : List Value}
    (found : Step.findReferred op services state = .ok referred ready)
    (runs : referred.Runs services ready.machine op receiver owner index method machine)
    (areOf : AreOf arguments referred.method.descriptor.parameters)
    (last : state.frame.stack.toList = base ++ toSlots (passed receiver arguments)) :
    Step.execute op services state =
        .ok (.call owner index (toSlots (passed receiver arguments)))
          { ready with machine, frame := state.frame.withStack base } ∧
      Delivers owner index method receiver arguments (toSlots (passed receiver arguments))
  /-- Native methods are given the arguments. -/
  static {machine between after : Machine} {c : LinkedClass} {className name descriptor : String}
    {index : Nat} {method : Method} {arguments : List Value}
    (loaded : Exec.load className services machine = .ok c between)
    (initialized : Exec.ensureInitialized c services between = .ok () after)
    (declared : c.declaredMethod? name descriptor = some index)
    (present : c.method? index = some method) (static : method.isStatic = true)
    (areOf : AreOf arguments method.descriptor.parameters) :
    Exec.invokeStatic className name descriptor arguments services machine =
        Exec.invoke c index (toSlots (passed none arguments)) services after ∧
      Delivers c index method none arguments (toSlots (passed none arguments))
  virtual {machine : Machine} {ref : Ref} {name descriptor : String} {called : MethodDescriptor}
    {owner : LinkedClass} {index : Nat} {method : Method} {arguments : List Value}
    (selects : machine.Selects ref (methodKey name descriptor) called owner index method)
    (areOf : AreOf arguments called.parameters) :
    Exec.invokeVirtual ref name descriptor arguments services machine =
        Exec.invoke owner index (toSlots (passed (some ref) arguments)) services machine ∧
      Delivers owner index method (some ref) arguments (toSlots (passed (some ref) arguments))

/-- **Arguments arrive where the callee looks for them**, whoever calls. -/
theorem passesArguments (services : Services) : PassesArguments services where
  host finds converted runs := finds.passes converted runs
  constructor found initialized allocated converted dynamic :=
    LinkedClass.construct_passes found initialized allocated converted dynamic
  instruction found runs areOf last := Step.execute_passes found runs areOf last
  static loaded initialized declared present static areOf :=
    Exec.invokeStatic_passes loaded initialized declared present static areOf
  virtual selects areOf := Exec.invokeVirtual_passes selects areOf

/-! ## A mixer -/

def mixSymbol : MethodSymbol :=
  ⟨"Mixer", "mix", "(IJD)I", ⟨[.int, .long, .double], some .int⟩⟩

/-- A method that gives the number in its first local. -/
def mix : Method :=
  ⟨⟨0x0001⟩, mixSymbol.name, mixSymbol.descriptorText, mixSymbol.descriptor,
    some ⟨1, 8, #[0x1b, 0xac], []⟩⟩

def mixer : LinkedClass :=
  .mk ⟨"Mixer", ⟨0x0021⟩, #[], [], [], #[mix], none, none⟩ none [] none [(mixSymbol.key, ⟨none, 0⟩)]

/-- A mixer is about to be called with an int, a long and a double. -/
def mixState : StepState :=
  let state := Step.callState [("Mixer", mixer)] mixer mixSymbol
  { state with frame := { state.frame with
    code := ⟨6, 0, #[0xb6, 0, 1], []⟩
    stack := #[.reference (some 0), .int 1, .long 2, .top, .double 3, .top] } }

theorem passesArguments_mix :
    ∃ after, Step.execute .invokevirtual Step.animalServices mixState =
        .ok (.call mixer 0 [.reference (some 0), .int 1, .long 2, .top, .double 3, .top]) after ∧
      ∃ frame : Frame, frame.method = mix ∧
        frame.Holds (some 0) [.int 1, .long 2, .double 3] := by
  have selected : mixer.findMethod? mixSymbol.key = some (mixer, 0) := by
    simp [LinkedClass.findMethod?, mixer, LinkedClass.table, LinkedClass.ownerOf]
  have read : Step.readShort Step.animalServices mixState =
      .ok 1 { mixState with cursor := 3 } := rfl
  have named : Step.methodSymbolAt 1 Step.animalServices { mixState with cursor := 3 } =
      .ok mixSymbol { mixState with cursor := 3 } := rfl
  obtain ⟨ready, linked⟩ : ∃ ready,
      Step.methodAt 1 mixSymbol Step.animalServices { mixState with cursor := 3 } =
        .ok (mixer, 0, mix) ready :=
    ⟨_, Step.methodAt_of_unlinked (by decide +kernel) rfl selected rfl rfl⟩
  have found : Step.findReferred .invokevirtual Step.animalServices mixState =
      .ok ⟨⟨mixer, 0, mix⟩, mixSymbol.key⟩ ready := by
    unfold Step.findReferred
    rw [bind_of_ok read]
    simp only [reduceCtorEq, ↓reduceIte]
    rw [bind_of_ok named, bind_of_ok linked]
    rfl
  have heap : ready.machine.heap = mixState.machine.heap :=
    (Step.notes_methodAt _ _ _ _ _ _ linked).heap
  have selects : ready.machine.Selects 0 mixSymbol.key mix.descriptor mixer 0 mix := by
    refine ⟨?_, rfl, rfl, rfl⟩
    rw [heap]
    exact selected
  have areOf : AreOf [.int 1, .long 2, .double 3] mix.descriptor.parameters :=
    .cons rfl (.cons rfl (.cons rfl .nil))
  obtain ⟨executed, delivers⟩ := (passesArguments Step.animalServices).instruction found
    (.onObject (.inl rfl) (.selected rfl rfl selects)) areOf (List.nil_append _).symm
  obtain ⟨frame, sameMethod, -, holds, -⟩ := delivers.code _ rfl rfl (by decide)
  exact ⟨_, executed, frame, sameMethod, holds⟩

/-! ## Cups, mugs and jugs -/

/-- What is poured into a cup comes out again. A mug has a static method of the same name and
descriptor, which gives its only argument. A jug has a method with the key of one of cups, where
another part of the key is the descriptor. -/
def cupScripts : List ClassScript := [
  ⟨"Cup", some ClassName.object, [
    .method Builtin.isPublic "pour" "(I)I" 0 [
      .load .int 1,
      .plain (Opcode.returnValue .int).byte],
    .method Builtin.isPublic "pour" "(J)Lx(I)Ly;" 0 [
      .load .reference 0,
      .plain (Opcode.returnValue .reference).byte]]⟩,
  ⟨"Mug", some "Cup", [
    .method Builtin.publicStatic "pour" "(I)I" 0 [
      .load .int 0,
      .plain (Opcode.returnValue .int).byte,
      .maxLocals 2]]⟩,
  ⟨"Jug", some "Cup", [
    .method Builtin.isPublic "pour(J)Lx" "(I)Ly;" 0 [
      .load .int 1,
      .plain Opcode.pop.byte,
      .load .reference 0,
      .plain (Opcode.returnValue .reference).byte,
      .maxLocals 3]]⟩,
  ⟨"Waiter", some ClassName.object, [
    .method Builtin.publicStatic "fillMug" "()I" 0 [
      .classUse .new "Mug",
      .iconst 7,
      .call .virtual "Cup" "pour" "(I)I",
      .plain (Opcode.returnValue .int).byte],
    .method Builtin.publicStatic "fillJug" "()Ljava/lang/Object;" 0 [
      .classUse .new "Jug",
      .lconst 7,
      .call .virtual "Cup" "pour" "(J)Lx(I)Ly;",
      .plain (Opcode.returnValue .reference).byte]]⟩]

/-- A session in which nothing has been filled yet. -/
@[irreducible] def cups : Session :=
  Session.opened (Options.ofScripts cupScripts 8)

/-- Has a waiter pour seven into a mug or a jug, which are objects. -/
def serve (which : String) : Exec HostValue := do
  (← Target.named "Waiter" none).call which []

/-- Pours seven, with the static method of mugs. -/
def pourSeven : Exec HostValue := do
  (← Target.named "Mug" none).call "pour" [.int 7]

theorem cups_facts :
    (Session.start (Options.ofScripts cupScripts 8)).isOk = true ∧
      intOf? (cups.perform pourSeven).1 = some 7 ∧
      refusal? (cups.perform (serve "fillMug")).1 =
        some (.virtualMachine
          (.instruction ⟨"Mug", "pour"⟩ 0 (.localKind "iload_0" .int 0 (.value .reference)))) ∧
      refusal? (cups.perform (serve "fillJug")).1 =
        some (.virtualMachine
          (.instruction ⟨"Jug", "pour(J)Lx"⟩ 0 (.localKind "iload_1" .int 1 (.value .long)))) := by
  decide +kernel

/-- **What the class of an object has for a key may look elsewhere for its arguments.** A static
method of mugs, called on a mug, finds the mug where its number should be; called as what it is, it
finds the number. A method of jugs with another descriptor finds a long instead of an int. -/
theorem fill_misplaced :
    Session.Reached (Options.ofScripts cupScripts 8) cups ∧
      (cups.perform pourSeven).1 = .ok (.int 7) ∧
      (cups.perform (serve "fillMug")).1 = .error (.virtualMachine
        (.instruction ⟨"Mug", "pour"⟩ 0 (.localKind "iload_0" .int 0 (.value .reference)))) ∧
      (cups.perform (serve "fillJug")).1 = .error (.virtualMachine
        (.instruction ⟨"Jug", "pour(J)Lx"⟩ 0 (.localKind "iload_1" .int 1 (.value .long)))) := by
  refine ⟨?_, eq_ok_of_intOf cups_facts.2.1, eq_error_of_refusal cups_facts.2.2.1,
    eq_error_of_refusal cups_facts.2.2.2⟩
  unfold cups
  exact .started (Session.start_opened cups_facts.1)

end JavaMachine
