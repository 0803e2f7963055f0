import JavaMachine.Instruction.Call
import JavaMachine.Instruction.Field
import JavaMachine.Native.System
import JavaMachine.Proofs.Class.Definition
import JavaMachine.Proofs.Value

/-! # What is known of what actions give

Whatever the machine does is put together from a few actions: it reads its state, loads classes,
calls methods, makes and changes objects, initializes classes and ends early. Some of them give
something of which something is known (a class that was loaded, the object of a reference), and some
are only used with such things (a method that is called, a class of which an instance is made). Rules
for the simplest actions and for sequences lead from there to all the others. The first ones are the
actions that instructions and native methods share. -/

namespace JavaMachine

/-- What is known of a value of which nothing is known. -/
def anything {α : Type} : α → Prop := fun _ => True

/-- The operations on frames that instructions are made of: they work on the operand stack and on
the locals. -/
class inductive Frame.Used : {α : Type} → FrameM α → Prop where
  | push (value : Value) : Used (Frame.push value)
  | pushSlot (value : Value) : Used (Frame.pushSlot value)
  | pop : Used Frame.pop
  | popSlot : Used Frame.popSlot
  | popSlots (count : Nat) : Used (Frame.popSlots count)
  | popInt : Used Frame.popInt
  | popLong : Used Frame.popLong
  | popFloat : Used Frame.popFloat
  | popDouble : Used Frame.popDouble
  | popReference : Used Frame.popReference
  | getLocal (index : Nat) : Used (Frame.getLocal index)
  | setLocal (index : Nat) (value : Value) : Used (Frame.setLocal index value)

attribute [instance] Frame.Used.push Frame.Used.pushSlot Frame.Used.pop Frame.Used.popSlot
  Frame.Used.popSlots Frame.Used.popInt Frame.Used.popLong Frame.Used.popFloat Frame.Used.popDouble
  Frame.Used.popReference Frame.Used.getLocal Frame.Used.setLocal

/-- An operation counts as itself where an instruction lifts it. -/
instance {α : Type} {operation : FrameM α} [used : Frame.Used operation] :
    Frame.Used (monadLift operation : FrameM α) :=
  used

/-! ## Knowledge -/

/-- The key of the methods that initialize classes. -/
def initializerKey : String :=
  methodKey MemberName.staticInitializer "()V"

/-- What is known of classes, of methods, which have indices in classes, and of static fields, which
have slots. -/
structure Knowledge where
  /-- The classes that are loaded. -/
  Class : LinkedClass → Prop
  /-- A class is loaded under a name. -/
  Named : String → LinkedClass → Prop
  /-- The classes of objects. -/
  Instance : LinkedClass → Prop
  /-- The keys by which methods are called. -/
  Key : String → Prop
  Method : LinkedClass → Nat → Prop
  /-- A class has a static field of a type in a slot. -/
  Static : LinkedClass → Nat → FieldType → Prop
  ofNamed {name : String} {c : LinkedClass} (isKnown : Named name c) : Class c
  ofClass {c : LinkedClass} (isKnown : Class c) : Instance c
  linked {c d : LinkedClass} (isKnown : Class c) (links : c.LinksTo d) : Class d
  /-- Methods may be called by all keys except, perhaps, the one of initializers. -/
  key_of_ne {key : String} (plain : key ≠ initializerKey) : Key key
  /-- The methods of a known class are known. -/
  declared {c : LinkedClass} {index : Nat} {method : JavaMachine.Method} (isKnown : Class c)
    (present : c.method? index = some method) (callable : Key method.key) : Method c index
  /-- So are those that the class of an object has or inherits. -/
  found {c owner : LinkedClass} {key : String} {index : Nat} (isKnown : Instance c)
    (callable : Key key) (selected : c.findMethod? key = some (owner, index)) : Method owner index
  owner {owner : LinkedClass} {index : Nat} (isKnown : Method owner index) : Class owner
  static {c owner : LinkedClass} {name : String} {field : Field} (isKnown : Class c)
    (found : c.staticField? name = some (owner, field)) :
    Class owner ∧ Static owner field.slot field.type

namespace Knowledge

variable (known : Knowledge)

/-- An object of a known class. -/
def Object (object : HeapObject) : Prop := known.Instance object.type

/-- How a method goes on: if it calls a method, then a known one. -/
def Next : Next → Prop
  | .call owner index _ => known.Method owner index
  | .proceed | .finish _ => True

/-- To know nothing. -/
def nothing : Knowledge where
  Class := anything
  Named _ := anything
  Instance := anything
  Key := anything
  Method _ := anything
  Static _ _ := anything
  ofNamed _ := trivial
  ofClass _ := trivial
  linked _ _ := trivial
  key_of_ne _ := trivial
  declared _ _ _ := trivial
  found _ _ _ := trivial
  owner _ := trivial
  static _ _ := ⟨trivial, trivial⟩

end Knowledge

/-- The name of the class that a constant says, on its own or as that of a member. -/
def Constant.className? : Constant → Option String
  | .classRef name => some name
  | .fieldref symbol => some symbol.owner
  | .methodref symbol | .interfaceMethodref symbol => some symbol.owner
  | _ => none

namespace Knowledge

variable (known : Knowledge)

/-- What is known of the constants of the class whose code is executed, and of what they are linked
to. -/
structure Pool where
  Constant : UInt16 → Constant → Prop
  Link : UInt16 → Linkage → Prop
  linkNamed {index : UInt16} {constant : JavaMachine.Constant} {name : String} {c : LinkedClass}
    (isConstant : Constant index constant) (names : constant.className? = some name)
    (isKnown : known.Named name c) : Link index (.named c)
  linkStatic {index : UInt16} {symbol : FieldSymbol} {c owner : LinkedClass} {field : Field}
    (constant : Constant index (.fieldref symbol)) (isKnown : known.Named symbol.owner c)
    (found : c.staticField? symbol.name = some (owner, field)) (typed : field.type = symbol.type) :
    Link index (.staticField owner field.slot)
  linkInstance {index : UInt16} {symbol : FieldSymbol} {c : LinkedClass} {field : Field}
    (constant : Constant index (.fieldref symbol)) (isKnown : known.Named symbol.owner c)
    (found : c.instanceField? symbol.name = some field) (typed : field.type = symbol.type) :
    Link index (.instanceField field.slot)
  linkMethod {index : UInt16} {symbol : MethodSymbol} {c owner : LinkedClass} {position : Nat}
    (constant : Constant index (.methodref symbol) ∨ Constant index (.interfaceMethodref symbol))
    (isKnown : known.Named symbol.owner c)
    (selected : c.findMethod? symbol.key = some (owner, position)) :
    Link index (.method owner position)
  named {index : UInt16} {constant : JavaMachine.Constant} {name : String} {c : LinkedClass}
    (isConstant : Constant index constant) (names : constant.className? = some name)
    (link : Link index (.named c)) : known.Named name c
  static {index : UInt16} {symbol : FieldSymbol} {owner : LinkedClass} {slot : Nat}
    (constant : Constant index (.fieldref symbol)) (link : Link index (.staticField owner slot)) :
    known.Class owner ∧ known.Static owner slot symbol.type
  method {index : UInt16} {owner : LinkedClass} {position : Nat}
    (link : Link index (.method owner position)) : known.Method owner position
  callable {index : UInt16} {symbol : MethodSymbol}
    (constant : Constant index (.methodref symbol) ∨ Constant index (.interfaceMethodref symbol)) :
    known.Key symbol.key

/-- To know nothing of constants. -/
def Pool.nothing : Knowledge.nothing.Pool where
  Constant _ := anything
  Link _ := anything
  linkNamed _ _ _ := trivial
  linkStatic _ _ _ _ := trivial
  linkInstance _ _ _ _ := trivial
  linkMethod _ _ _ := trivial
  named _ _ _ := trivial
  static _ _ := ⟨trivial, trivial⟩
  method _ := trivial
  callable _ := trivial

end Knowledge

/-- The method that a class declares has an index in it. -/
theorem LinkedClass.exists_of_declaredMethod? {c : LinkedClass} {name descriptor : String}
    {index : Nat} (declared : c.declaredMethod? name descriptor = some index) :
    ∃ method, c.method? index = some method ∧ method.key = methodKey name descriptor := by
  obtain ⟨within, same, -⟩ := Array.findIdx?_eq_some_iff_getElem.mp declared
  obtain ⟨named, described⟩ := Bool.and_eq_true_iff.mp same
  refine ⟨_, Array.getElem?_eq_getElem within, ?_⟩
  rw [Method.key, eq_of_beq named, eq_of_beq described]

/-- Properties of the actions of a machine and of the parts of instructions, each with something
that holds of what they give. -/
structure Informed (known : Knowledge) (pool : known.Pool)
    (OfExec : ∀ {α : Type}, (α → Prop) → Exec α → Prop)
    (OfStep : ∀ {α : Type}, (α → Prop) → Step α → Prop) : Prop where
  exec_pure {α : Type} {gives : α → Prop} {value : α} (given : gives value) :
    OfExec gives (pure value)
  exec_bind {α β : Type} {gives : α → Prop} {wanted : β → Prop} {action : Exec α}
    {next : α → Exec β} (first : OfExec gives action)
    (rest : ∀ value, gives value → OfExec wanted (next value)) : OfExec wanted (action >>= next)
  exec_throw {α : Type} {gives : α → Prop} (interruption : Interruption) :
    OfExec gives (throw interruption)
  exec_get : OfExec anything (get : Exec Machine)
  exec_load (name : String) : OfExec (known.Named name) (Exec.load name)
  exec_object (ref : Ref) : OfExec known.Object (Exec.object ref)
  exec_invoke {owner : LinkedClass} {index : Nat} (callable : known.Method owner index)
    (arguments : List Value) : OfExec anything (Exec.invoke owner index arguments)
  exec_setStatic {c : LinkedClass} {slot : Nat} {type : FieldType} (field : known.Static c slot type)
    {value : Value} (holds : type.Holds value) : OfExec anything (Exec.setStatic c slot value)
  exec_assignConstants {c : LinkedClass} (isKnown : known.Class c) :
    OfExec anything (Exec.assignConstants c c.staticFields)
  exec_instantiate {c : LinkedClass} (isKnown : known.Class c) :
    OfExec anything (Exec.allocate (.ofClass c))
  exec_allocateZeros {c : LinkedClass} (isKnown : known.Class c) (length : Nat) :
    OfExec anything (Exec.allocateZeros c length)
  exec_putField (ref : Ref) (slot : Nat) (value : Value) :
    OfExec anything (Exec.putField ref slot value)
  exec_newString (text : String) : OfExec anything (Exec.newString text)
  exec_intern (text : String) : OfExec anything (Exec.intern text)
  exec_print (toErrors : Bool) (text : String) : OfExec anything (Exec.print toErrors text)
  exec_readClock : OfExec anything Native.SystemMethods.readClock
  exec_initializing {c : LinkedClass} (isKnown : known.Class c)
    (above : OfExec anything (Exec.ensureInitialized.ofSuperclass c.superclass)) :
    OfExec anything (Exec.ensureInitialized c)
  step_pure {α : Type} {gives : α → Prop} {value : α} (given : gives value) :
    OfStep gives (pure value)
  step_bind {α β : Type} {gives : α → Prop} {wanted : β → Prop} {action : Step α}
    {next : α → Step β} (first : OfStep gives action)
    (rest : ∀ value, gives value → OfStep wanted (next value)) : OfStep wanted (action >>= next)
  step_throw {α : Type} {gives : α → Prop} (interruption : Interruption) :
    OfStep gives (throw interruption)
  step_onMachine {α : Type} {gives : α → Prop} {action : Exec α} (inner : OfExec gives action) :
    OfStep gives (Step.onMachine action)
  step_onFrame {α : Type} (operation : FrameM α) [used : Frame.Used operation] :
    OfStep anything (Step.onFrame operation)
  step_frame : OfStep anything Step.frame
  step_cursor : OfStep anything Step.cursor
  step_seek (cursor : Nat) : OfStep anything (Step.seek cursor)
  step_arrayLimit : OfStep anything (do return (← read).limits.arrayLength)
  step_constantAt (index : UInt16) : OfStep (pool.Constant index) (Step.constantAt index)
  step_classNamed {index : UInt16} {constant : Constant} {name : String}
    (isConstant : pool.Constant index constant) (names : constant.className? = some name) :
    OfStep (known.Named name) (Step.classNamed index name)
  step_linked {index : UInt16} {constant : Constant} {name : String}
    {find : LinkedClass → Except Error Linkage} (isConstant : pool.Constant index constant)
    (names : constant.className? = some name)
    (finds : ∀ c link, known.Named name c → find c = .ok link → pool.Link index link) :
    OfStep (pool.Link index) (Step.linked index name find)

namespace Informed

variable {known : Knowledge} {pool : known.Pool}
  {OfExec : ∀ {α : Type}, (α → Prop) → Exec α → Prop}
  {OfStep : ∀ {α : Type}, (α → Prop) → Step α → Prop} (closed : Informed known pool OfExec OfStep)
  {α β : Type} {gives wanted : α → Prop}

include closed

/-! ## Errors and checks -/

theorem exec_weaken {action : Exec α} (holds : OfExec gives action)
    (imply : ∀ value, gives value → wanted value) : OfExec wanted action := by
  rw [← bind_pure action]
  exact closed.exec_bind holds fun value given => closed.exec_pure (imply value given)

theorem exec_fail (error : Error) : OfExec gives (Exec.fail error) :=
  closed.exec_throw (.fatal error)

/-- Nothing comes after an error. -/
theorem exec_fail_bind (error : Error) {next : β → Exec α} :
    OfExec gives (Exec.fail error >>= next) := by
  have never : OfExec (fun _ => False) (Exec.fail error : Exec β) := closed.exec_fail error
  exact closed.exec_bind never fun _ => False.elim

/-- An action that goes on unless a check stops it. -/
theorem exec_check {failed : Prop} [Decidable failed] {stop : Exec PUnit}
    {rest : PUnit → Exec α} (stopped : OfExec anything stop)
    (passed : ∀ u, OfExec gives (rest u)) :
    OfExec gives (if failed then stop >>= rest else rest ()) := by
  split
  · exact closed.exec_bind stopped fun u _ => passed u
  · exact passed ()

/-- A part of an instruction that goes on unless a check stops it. -/
theorem step_check {failed : Prop} [Decidable failed] {stop : Step PUnit}
    {rest : PUnit → Step α} (stopped : OfStep anything stop)
    (passed : ∀ u, OfStep gives (rest u)) :
    OfStep gives (if failed then stop >>= rest else rest ()) := by
  split
  · exact closed.step_bind stopped fun u _ => passed u
  · exact passed ()

/-! ## State, classes and objects -/

theorem exec_loadArray (component : FieldType) :
    OfExec (known.Named (FieldType.array component).descriptor) (Exec.loadArray component) :=
  closed.exec_load _

theorem exec_classState (c : LinkedClass) : OfExec anything (Exec.classState c) :=
  closed.exec_bind closed.exec_get fun _ _ => closed.exec_pure trivial

theorem exec_getStatic (c : LinkedClass) (slot : Nat) :
    OfExec anything (Exec.getStatic c slot) := by
  refine closed.exec_bind (closed.exec_classState c) fun state _ => ?_
  split
  · exact closed.exec_pure trivial
  · exact closed.exec_fail _

theorem exec_getField (ref : Ref) (slot : Nat) : OfExec anything (Exec.getField ref slot) := by
  refine closed.exec_bind (closed.exec_object ref) fun object _ => ?_
  split
  · exact closed.exec_pure trivial
  · exact closed.exec_fail _

/-! ## Initialization and throwables -/

/-- The initialization of a class goes up the chain of superclasses, each inside the one below. -/
theorem exec_ensureInitialized :
    ∀ {c : LinkedClass}, known.Class c → OfExec anything (Exec.ensureInitialized c)
  | .mk info superclass interfaces element table, isKnown => by
    refine closed.exec_initializing isKnown ?_
    cases superclass with
    | none => exact closed.exec_pure trivial
    | some above => exact exec_ensureInitialized (known.linked isKnown (.superclass rfl))

theorem exec_newThrowable (className : String) (detail : Option String) :
    OfExec anything (Exec.newThrowable className detail) := by
  refine closed.exec_bind (closed.exec_load className) fun c loaded => ?_
  refine closed.exec_bind (closed.exec_ensureInitialized (known.ofNamed loaded)) fun _ _ => ?_
  refine closed.exec_bind (closed.exec_instantiate (known.ofNamed loaded)) fun exception _ => ?_
  dsimp only
  split
  · split
    · exact closed.exec_fail_bind _
    · refine closed.exec_bind (closed.exec_newString _) fun message _ => ?_
      exact closed.exec_bind (closed.exec_putField _ _ _) fun _ _ => closed.exec_pure trivial
  · exact closed.exec_pure trivial

theorem exec_throwNew (className : String) (detail : Option String) :
    OfExec gives (Exec.throwNew className detail : Exec α) :=
  closed.exec_bind (closed.exec_newThrowable className detail) fun exception _ =>
    closed.exec_throw (.thrown exception)

theorem exec_throwIndex (className : String) (index : Int32) (length : Nat) :
    OfExec gives (Exec.throwIndex className index length : Exec α) :=
  closed.exec_throwNew className _

end Informed

end JavaMachine
