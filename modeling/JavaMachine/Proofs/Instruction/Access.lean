import JavaMachine.Instruction.Call
import JavaMachine.Instruction.Object
import JavaMachine.Proofs.Machine.Guarded

/-! # Access to classes by instructions

The instructions that read and change static fields, make instances and call static methods are
guarded by the initialization of the class. What they need to find the class, and what they take
from the stack, is inert. -/

namespace JavaMachine

namespace Step

/-! ## Parts of instructions -/

theorem inert_onMachine {α : Type} {action : Exec α} (inner : Inert action) :
    Inert (onMachine action) where
  callFree services invoke state := by
    simp only [onMachine, inner.callFree]
  spares services state := by
    have spared := inner.spares services state.machine
    simp only [onMachine]
    generalize action services state.machine = result at spared ⊢
    cases result with
    | ok value after => exact spared
    | error interruption after => exact spared

theorem inert_onFrame {α : Type} (operation : FrameM α) : Inert (onFrame operation) := by
  refine inert_of_same (fun _ _ _ => rfl) fun services state => ?_
  simp only [onFrame]
  cases operation state.frame <;> rfl

theorem inert_frame : Inert frame :=
  inert_of_same (fun _ _ _ => rfl) fun _ _ => rfl

theorem inert_cursor : Inert cursor :=
  inert_of_same (fun _ _ _ => rfl) fun _ _ => rfl

theorem inert_seek (cursor : Nat) : Inert (seek cursor) :=
  inert_of_same (fun _ _ _ => rfl) fun _ _ => rfl

theorem inert_fault {α : Type} (fault : InstructionFault) : Inert (Step.fault fault : Step α) :=
  inert_frame.bind fun _ => inert_throw _

theorem inert_readByte : Inert readByte := by
  refine inert_cursor.bind fun cursor => inert_frame.bind fun frame => ?_
  split
  · exact (inert_seek _).bind fun _ => inert_pure _
  · exact inert_fault _

theorem inert_readShort : Inert readShort :=
  inert_readByte.bind fun _ => inert_readByte.bind fun _ => inert_pure _

theorem inert_constantAt (index : UInt16) : Inert (constantAt index) := by
  refine inert_frame.bind fun frame => ?_
  dsimp only
  split
  · exact inert_pure _
  · exact inert_onMachine (inert_throw _)

theorem inert_linkAt (index : UInt16) : Inert (linkAt index) := by
  refine inert_frame.bind fun frame => ?_
  exact (inert_onMachine (Exec.inert_get.bind fun _ => inert_pure _)).bind fun _ => inert_pure _

/-- Noting a link changes nothing else about a class. -/
theorem inert_setLink (index : UInt16) (link : Linkage) : Inert (setLink index link) := by
  refine inert_frame.bind fun frame => inert_onMachine ⟨fun _ _ _ => rfl, fun _ machine => ?_⟩
  change Spares machine (Exec.withClass frame.owner _ machine)
  refine ⟨?_, fun name state known => ?_, [], (List.append_nil _).symm, nofun⟩
  · rw [Exec.phases_withClass, Exec.phase_stateIn, Function.update_eq_self]
  · rw [Exec.withClass, Exec.lookup_alter]
    split
    · next same =>
      rw [← same, known]
      exact ⟨_, rfl⟩
    · exact ⟨state.links, known⟩

theorem inert_classNamed (index : UInt16) (name : String) : Inert (classNamed index name) := by
  refine (inert_linkAt index).bind fun link => ?_
  split
  · exact inert_pure _
  · exact (inert_onMachine (Exec.inert_load name)).bind fun c =>
      (inert_setLink index _).bind fun _ => inert_pure _

theorem inert_classAt (index : UInt16) : Inert (classAt index) := by
  refine (inert_constantAt index).bind fun constant => ?_
  split
  · exact inert_classNamed index _
  · exact inert_fault _

theorem inert_linked (index : UInt16) (name : String) (find : LinkedClass → Except Error Linkage) :
    Inert (linked index name find) := by
  have search (c : LinkedClass) : Inert (Exec.ofExcept (find c)) := by
    cases find c with
    | ok link => exact inert_pure _
    | error error => exact inert_throw _
  have found : Inert (do
      let c ← classNamed index name
      let link ← Exec.ofExcept (find c)
      setLink index link
      return link : Step Linkage) :=
    (inert_classNamed index name).bind fun c => (inert_onMachine (search c)).bind fun link =>
      (inert_setLink index link).bind fun _ => inert_pure _
  refine (inert_linkAt index).bind fun link => ?_
  split
  · exact found
  · exact found
  · exact inert_pure _

theorem inert_fieldSymbolAt (index : UInt16) : Inert (fieldSymbolAt index) := by
  refine (inert_constantAt index).bind fun constant => ?_
  split
  · exact inert_pure _
  · exact inert_fault _

theorem inert_methodSymbolAt (index : UInt16) : Inert (methodSymbolAt index) := by
  refine (inert_constantAt index).bind fun constant => ?_
  split
  · exact inert_pure _
  · exact inert_pure _
  · exact inert_fault _

theorem inert_methodAt (index : UInt16) (symbol : MethodSymbol) :
    Inert (methodAt index symbol) := by
  refine (inert_linked index symbol.owner symbol.find).bind fun link => ?_
  split
  · split
    · exact inert_pure _
    · exact inert_onMachine (inert_throw _)
  · exact inert_onMachine (inert_throw _)

theorem inert_checkKind (op : Opcode) (type : FieldType) (value : Value) :
    Inert (checkKind op type value) := by
  unfold checkKind
  split
  · exact inert_fault _
  · exact inert_pure _

/-! ## Static fields -/

/-- A static field that a reference names. -/
structure StaticPlace where
  symbol : FieldSymbol
  owner : LinkedClass
  slot : Nat

/-- The static field that the operands of an instruction refer to. -/
def findStaticPlace : Step StaticPlace := do
  let index ← readShort
  let symbol ← fieldSymbolAt index
  match ← linked index symbol.owner symbol.findStatic with
  | .staticField owner slot => return ⟨symbol, owner, slot⟩
  | _ => fault .staticAccessToInstanceField

theorem inert_findStaticPlace : Inert findStaticPlace := by
  refine inert_readShort.bind fun index => (inert_fieldSymbolAt index).bind fun symbol => ?_
  refine (inert_linked index symbol.owner symbol.findStatic).bind fun link => ?_
  split
  · exact inert_pure _
  · exact inert_fault _

/-- Pushes the content of a static field. -/
def pushStatic (place : StaticPlace) : Step Unit := do
  let value ← Exec.getStatic place.owner place.slot
  Frame.push value

/-- Takes a value for a static field from the stack. -/
def popStatic (place : StaticPlace) : Step Value := do
  let value ← Frame.pop
  checkKind .putstatic place.symbol.type value
  return value

/-- Changes a static field. -/
def storeStatic (place : StaticPlace) (value : Value) : Step Unit :=
  onMachine (Exec.setStatic place.owner place.slot (Value.narrow place.symbol.type value))

theorem guarded_getStatic :
    Guarded getStatic findStaticPlace StaticPlace.owner (fun _ => pure ())
      fun place _ => pushStatic place := by
  refine .of_exact ?_ inert_findStaticPlace fun _ => inert_pure _
  simp only [getStatic, findStaticPlace, staticSlot, bind_assoc]
  refine bind_congr fun index => bind_congr fun symbol => bind_congr fun link => ?_
  cases link with
  | staticField owner slot =>
    simp only [bind_assoc, pure_bind]
    rfl
  | named | instanceField | method => rfl

theorem guarded_putStatic :
    Guarded putStatic findStaticPlace StaticPlace.owner popStatic storeStatic := by
  refine .of_exact ?_ inert_findStaticPlace fun place => ?_
  · simp only [putStatic, findStaticPlace, staticSlot, bind_assoc]
    refine bind_congr fun index => bind_congr fun symbol => bind_congr fun link => ?_
    cases link with
    | staticField owner slot =>
      simp only [popStatic, bind_assoc, pure_bind]
      rfl
    | named | instanceField | method => rfl
  · exact (inert_onFrame _).bind fun value =>
      (inert_checkKind _ _ value).bind fun _ => inert_pure value

/-! ## Instances and static methods -/

/-- The class that the operands of an instruction name, which can have instances. -/
def findInstantiable : Step LinkedClass := do
  let index ← readShort
  let c ← classAt index
  if c.isAbstract || c.isInterface then
    fault (.instantiation c.name)
  return c

/-- Pushes a new instance of a class. -/
def pushInstance (c : LinkedClass) : Step Unit := do
  let ref ← Exec.allocate (.ofClass c)
  pushObject ref

theorem guarded_newObject :
    Guarded newObject findInstantiable id (fun _ => pure ()) fun c _ => pushInstance c := by
  refine .of_exact ?_ ?_ fun _ => inert_pure _
  · simp only [newObject, findInstantiable, bind_assoc]
    refine bind_congr fun index => bind_congr fun c => ?_
    split
    · rfl
    · simp only [pure_bind]
      rfl
  · refine inert_readShort.bind fun index => (inert_classAt index).bind fun c => ?_
    dsimp only
    split
    · exact (inert_fault _).bind fun _ => inert_pure _
    · exact inert_pure _

/-- A static method that a reference names. -/
structure StaticTarget where
  owner : LinkedClass
  position : Nat
  method : Method

/-- The static method that the operands of an instruction refer to. -/
def findStaticTarget : Step StaticTarget := do
  let index ← readShort
  let symbol ← methodSymbolAt index
  let (owner, position, method) ← methodAt index symbol
  if !method.isStatic then
    fault (.staticCall symbol.key)
  return ⟨owner, position, method⟩

/-- Takes the arguments of a static method from the stack. -/
def popArguments (target : StaticTarget) : Step (List Value) :=
  onFrame (Frame.popSlots target.method.argumentSlots)

theorem guarded_invokeStatic :
    Guarded invokeStatic findStaticTarget StaticTarget.owner popArguments
      fun target arguments => return .call target.owner target.position arguments := by
  refine .of_exact ?_ ?_ fun target => inert_onFrame _
  · simp only [invokeStatic, findStaticTarget, bind_assoc]
    refine bind_congr fun index => bind_congr fun symbol => bind_congr fun found => ?_
    split
    · rfl
    · simp only [pure_bind]
      rfl
  · refine inert_readShort.bind fun index => (inert_methodSymbolAt index).bind fun symbol => ?_
    refine (inert_methodAt index symbol).bind fun found => ?_
    dsimp only
    split
    · exact (inert_fault _).bind fun _ => inert_pure _
    · exact inert_pure _

end Step

end JavaMachine
