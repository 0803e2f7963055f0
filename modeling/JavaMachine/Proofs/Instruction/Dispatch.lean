import JavaMachine.Instruction.Execute
import JavaMachine.Proofs.Class.Selection
import JavaMachine.Proofs.Instruction.Linking
import JavaMachine.Proofs.Machine.Phases

/-! # Calls on objects

An instruction that calls a method on an object takes as many slots from the stack as the method
has arguments that its reference resolves to, and then calls the method that the class of the
object selects. Where nothing hides the method on the way up from that class, the call is made, and
the slots are the arguments of the method that is called (`Step.CallOnObject.execute_selects`). A
private method below the one of the reference hides it, and the call fails
(`Step.execute_fails_below_private`). -/

namespace JavaMachine

open Loader (Reachable)
open Operation (bind_of_ok)
open Relation (ReflTransGen)

/-- The method that a reference resolves to among the loaded classes, with its class. -/
def MethodSymbol.ResolvesTo (symbol : MethodSymbol) (loaded : LoadedClasses)
    (owner : LinkedClass) (method : Method) : Prop :=
  ∃ named, loaded.lookup symbol.owner = some named ∧ named.Selects symbol.key owner method

namespace Step

variable {services : Services} {state after : StepState} {α β : Type}

/-! ## Parts of an instruction -/

theorem onFrame_of_ok {operation : FrameM α} {value : α} {frame : Frame}
    (ended : operation state.frame = .ok value frame) :
    (liftM operation : Step α) services state = .ok value { state with frame } := by
  change onFrame operation services state = _
  simp only [onFrame, ended]

theorem length_of_popSlots {count : Nat} {frame popped : Frame} {slots : List Value}
    (taken : Frame.popSlots count frame = .ok slots popped) : slots.length = count := by
  simp only [Frame.popSlots, Bind.bind, EStateM.bind, get, getThe, MonadStateOf.get,
    EStateM.get] at taken
  split at taken
  · cases taken
  · next enough =>
    obtain rfl : (frame.stack.extract (frame.stack.size - count) frame.stack.size).toList = slots :=
      (EStateM.Result.ok.inj taken).1
    rw [Array.length_toList, Array.size_extract]
    omega

/-- The instructions that call a method on an object, with the index of the reference among their
operands. -/
inductive Operands (services : Services) (state : StepState) (index : UInt16) :
    Opcode → StepState → Prop where
  | invokevirtual {read : StepState} (short : readShort services state = .ok index read) :
      Operands services state index .invokevirtual read
  | invokeinterface {between read : StepState} {unused : UInt16}
      (short : readShort services state = .ok index between)
      (rest : readShort services between = .ok unused read) :
      Operands services state index .invokeinterface read

theorem Operands.execute_eq {index : UInt16} {op : Opcode} {read : StepState}
    (operands : Operands services state index op read) :
    execute op services state = dispatch op index services read := by
  cases operands with
  | invokevirtual short => exact bind_of_ok short
  | invokeinterface short rest => exact (bind_of_ok short).trans (bind_of_ok rest)

/-! ## Calls on objects -/

/-- A call on an object that an instruction is about to make. -/
structure CallOnObject (services : Services) (op : Opcode) (state : StepState) where
  index : UInt16
  read : StepState
  operands : Operands services state index op read
  symbol : MethodSymbol
  referred : methodSymbolAt index services read = .ok symbol read
  /-- The class and the method that the reference resolves to. -/
  target : LinkedClass
  position : Nat
  called : Method
  ready : StepState
  linked : methodAt index symbol services read = .ok (target, position, called) ready
  resolves : symbol.ResolvesTo ready.machine.loaded target called
  object : Ref
  others : List Value
  popped : Frame
  taken : Frame.popSlots called.argumentSlots ready.frame =
    .ok (.reference (some object) :: others) popped

namespace CallOnObject

variable {op : Opcode} (call : CallOnObject services op state)

/-- The arguments in slots, the receiver first. -/
def arguments : List Value :=
  .reference (some call.object) :: call.others

/-- The class of the receiver. -/
def receiver : LinkedClass :=
  (call.ready.machine.heap.get call.object).type

/-- The state of the instruction when it makes the call. -/
def made : StepState :=
  { call.ready with frame := call.popped }

/-- A method that can be overridden is looked up in the class of the receiver. -/
theorem execute_eq (virtual : call.called.IsVirtual) :
    execute op services state =
      ((call.receiver.findMethod? call.symbol.key).elim
        (Exec.fail (.noSuchMethod call.receiver.name call.symbol.key))
        fun found => pure (.call found.1 found.2 call.arguments) : Step Next)
          services call.made := by
  rw [call.operands.execute_eq, dispatch, bind_of_ok call.referred, bind_of_ok call.linked]
  simp only [virtual.notStatic, Bool.false_eq_true, ↓reduceIte]
  rw [bind_of_ok (onFrame_of_ok call.taken)]
  have given : Step.receiver call.arguments services call.made = .ok call.object call.made := rfl
  have held : (liftM (Exec.object call.object) : Step HeapObject) services call.made =
      .ok (call.ready.machine.heap.get call.object) call.made := rfl
  change (Step.receiver call.arguments >>= _) services call.made = _
  rw [bind_of_ok given]
  simp only [virtual.inherited.1, Bool.false_eq_true, ↓reduceIte]
  rw [bind_of_ok held]
  unfold receiver
  cases (call.ready.machine.heap.get call.object).type.findMethod? call.symbol.key with
  | none => rfl
  | some found => rfl

theorem length_arguments : call.arguments.length = call.called.argumentSlots :=
  length_of_popSlots call.taken

end CallOnObject

/-! ## The first use of a reference -/

/-- A loaded class is given out, and nothing changes. -/
theorem exec_load_of_found {machine : Machine} {name : String} {c : LinkedClass}
    (plain : name.startsWith "[" = false) (found : machine.loaded.lookup name = some c) :
    Exec.load name services machine = .ok c machine := by
  have positive : Loader.depthBound services.sources ≠ 0 := by
    rw [Loader.depthBound]
    omega
  obtain ⟨depth, deep⟩ := Nat.exists_eq_succ_of_ne_zero positive
  have given : Loader.load services.sources name machine.loaded = .ok c machine.loaded := by
    rw [Loader.load, deep, Loader.resolve.eq_def]
    simp only [plain, Bool.false_eq_true, ↓reduceIte]
    exact Loader.cached_of_found found
  simp only [Exec.load, given]

/-- At its first use a reference is linked to the method that its key selects on the class that it
names. -/
theorem methodAt_of_unlinked {index : UInt16} {symbol : MethodSymbol} {named target : LinkedClass}
    {position : Nat} {method : Method} (plain : symbol.owner.startsWith "[" = false)
    (found : state.machine.loaded.lookup symbol.owner = some named)
    (selected : named.findMethod? symbol.key = some (target, position))
    (present : target.method? position = some method) (unlinked : link? index state = none) :
    methodAt index symbol services state =
      .ok (target, position, method)
        (withLink (withLink state index (.named named)) index (.method target position)) := by
  have unresolved : Unresolved index state := fun link known => by
    rw [unlinked] at known
    cases known
  have classFound : classNamed index symbol.owner services state =
      .ok named (withLink state index (.named named)) := by
    refine classNamed_of_loaded (fun c known => ?_) (exec_load_of_found plain found)
    rw [unlinked] at known
    cases known
  have finds : symbol.find named = .ok (.method target position) := by
    rw [MethodSymbol.find, selected]
  rw [methodAt, bind_of_ok ((linked_of_unresolved unresolved).trans
    ((bind_of_ok classFound).trans (search_of_ok finds)))]
  dsimp only
  rw [present]
  rfl

/-! ## A call from a class with one reference -/

/-- A class whose only constant is a reference to a method. -/
def callerOf (symbol : MethodSymbol) : LinkedClass :=
  .mk ⟨"Caller", ⟨0x0021⟩, #[.methodref symbol], [], [], #[], none, none⟩ none [] none []

/-- An `invokevirtual` on the only object of a machine, once its opcode is read. -/
def callState (loaded : LoadedClasses) (receiver : LinkedClass) (symbol : MethodSymbol) :
    StepState where
  machine := { loaded, heap := ⟨#[.ofClass receiver]⟩ }
  frame := {
    owner := callerOf symbol
    method := default
    code := ⟨1, 0, #[0xb6, 0, 1], []⟩
    pc := 0
    resumePc := 0
    locals := #[]
    stack := #[.reference (some 0)] }
  cursor := 1

theorem readShort_callState (loaded : LoadedClasses) (receiver : LinkedClass)
    (symbol : MethodSymbol) :
    readShort services (callState loaded receiver symbol) =
      .ok 1 { callState loaded receiver symbol with cursor := 3 } := by
  have number : (0 : UInt8).toUInt16 <<< 8 ||| (1 : UInt8).toUInt16 = 1 := by decide
  rw [← number]
  rfl

/-- The call of a method without parameters on that object. -/
def firstCall (services : Services) {loaded : LoadedClasses} (receiver : LinkedClass)
    {symbol : MethodSymbol} {target : LinkedClass} {position : Nat} {called : Method}
    (plain : symbol.owner.startsWith "[" = false)
    (found : loaded.lookup symbol.owner = some target)
    (selected : target.findMethod? symbol.key = some (target, position))
    (present : target.method? position = some called) (single : called.argumentSlots = 1) :
    CallOnObject services .invokevirtual (callState loaded receiver symbol) where
  index := 1
  read := { callState loaded receiver symbol with cursor := 3 }
  operands := .invokevirtual (readShort_callState loaded receiver symbol)
  symbol
  referred := rfl
  target
  position
  called
  ready := _
  linked := methodAt_of_unlinked plain found selected present rfl
  resolves := ⟨target, found, position, selected, present⟩
  object := 0
  others := []
  popped := { (callState loaded receiver symbol).frame with stack := #[] }
  taken := by rw [single]; rfl

/-! ## Animals and their sounds -/

/-- Dogs override the sound of animals. Fish have a private one, and carps have none of their
own. -/
def animalScripts : List ClassScript := [
  ⟨"Animal", some ClassName.object, [.nativeMethod Builtin.isPublic "sound" "()I"]⟩,
  ⟨"Dog", some "Animal", [.nativeMethod Builtin.isPublic "sound" "()I"]⟩,
  ⟨"Fish", some "Animal", [.nativeMethod Builtin.privateOnly "sound" "()I"]⟩,
  ⟨"Carp", some "Fish", []⟩]

/-- The classes of the animals, as a source. -/
def animalSource : ClassSource :=
  match animalScripts.mapM Builtin.fileOf with
  | .ok files => .ofClasses files
  | .error _ => .memory []

/-- What is loaded once some names have been asked for in turn. -/
def askedFor (sources : List ClassSource) (names : List String) : LoadedClasses :=
  names.foldl (fun loaded name =>
    match Loader.load sources name loaded with
    | .ok _ after | .error _ after => after) []

theorem reachable_askedFor (sources : List ClassSource) (names : List String) :
    Reachable sources (askedFor sources names) := by
  refine List.foldlRecOn (motive := Reachable sources) names _ .nothing ?_
  intro loaded reachable name _
  split
  · next ended => exact .loaded reachable ended
  · next ended => exact .failed reachable ended

@[irreducible] def animals : LoadedClasses :=
  askedFor [Loader.builtinClasses, animalSource] ["Dog", "Carp"]

/-- The class of an animal. -/
def animal (name : String) : LinkedClass :=
  (animals.lookup name).getD default

/-- The sound of an animal, a public native method. -/
def sound : Method :=
  ⟨⟨0x0101⟩, "sound", "()I", ⟨[], some .int⟩, none⟩

theorem animals_hierarchy :
    (∀ name ∈ ["Animal", "Dog", "Fish", "Carp"], (animals.lookup name).isSome = true) ∧
      (animal "Dog").superclass.map LinkedClass.name = some "Animal" ∧
      (animal "Fish").superclass.map LinkedClass.name = some "Animal" ∧
      (animal "Carp").superclass.map LinkedClass.name = some "Fish" ∧
      (animal "Animal").methods = #[sound] ∧
      (animal "Animal").isInterface = false ∧
      (animal "Dog").methods = #[sound] ∧
      ((animal "Carp").findMethod? "sound()I").isNone = true := by
  decide +kernel

theorem reachable_animals : Reachable [Loader.builtinClasses, animalSource] animals := by
  unfold animals
  exact reachable_askedFor _ _

theorem lookup_animal {name : String} (listed : name ∈ ["Animal", "Dog", "Fish", "Carp"]) :
    animals.lookup name = some (animal name) := by
  obtain ⟨c, found⟩ := Option.isSome_iff_exists.mp (animals_hierarchy.1 name listed)
  rw [animal, found, Option.getD_some]

/-- The superclass of an animal is known by its name. -/
theorem superclass_animal {name above : String}
    (listed : name ∈ ["Animal", "Dog", "Fish", "Carp"])
    (listedAbove : above ∈ ["Animal", "Dog", "Fish", "Carp"])
    (named : (animal name).superclass.map LinkedClass.name = some above) :
    (animal name).superclass = some (animal above) := by
  obtain ⟨c, extended, rfl⟩ := Option.map_eq_some_iff.mp named
  have linked := (reachable_animals.sound name _ (lookup_animal listed)).2.2 c
    (.superclass extended)
  rw [extended]
  exact linked.symm.trans (lookup_animal listedAbove)

def soundSymbol : MethodSymbol :=
  ⟨"Animal", "sound", "()I", ⟨[], some .int⟩⟩

theorem last_sound {c : LinkedClass} (methods : c.methods = #[sound]) :
    LinkedClass.lastDeclared? c.methods soundSymbol.key = some 0 := by
  have keyed : sound.key = soundSymbol.key := rfl
  rw [methods, LinkedClass.lastDeclared?]
  simp [keyed]

theorem called_of_methods {c : LinkedClass} (methods : c.methods = #[sound]) :
    c.method? 0 = some sound := by
  rw [LinkedClass.method?, methods]
  rfl

theorem built_animal {name : String} (listed : name ∈ ["Animal", "Dog", "Fish", "Carp"]) :
    (animal name).TablesBuilt :=
  reachable_animals.allBuilt _ (Loader.mem_of_lookup (lookup_animal listed))

def animalServices : Services where
  sources := [Loader.builtinClasses, animalSource]
  limits := {}
  stringClass := default
  invoke _ _ _ := throw .outOfFuel

/-- The call of the sound of an animal on an animal of some class. -/
def soundOf (name : String) : CallOnObject animalServices .invokevirtual
    (callState animals (animal name) soundSymbol) :=
  have listed : soundSymbol.owner ∈ ["Animal", "Dog", "Fish", "Carp"] := by decide
  have methods : (animal soundSymbol.owner).methods = #[sound] :=
    animals_hierarchy.2.2.2.2.1
  have selected := (built_animal listed).findMethod?_of_declared (last_sound methods)
  firstCall animalServices (animal name) (by simp [soundSymbol]) (lookup_animal listed) selected
    (called_of_methods methods) (by decide)

theorem receiver_soundOf (name : String) : (soundOf name).receiver = animal name := by
  change (HeapObject.ofClass (animal name)).type = animal name
  unfold HeapObject.ofClass
  split <;> rfl

theorem virtual_sound : sound.IsVirtual :=
  ⟨by decide, rfl⟩

theorem loaded_soundOf {name : String} (listed : name ∈ ["Animal", "Dog", "Fish", "Carp"]) :
    (soundOf name).ready.machine.loaded.lookup (soundOf name).receiver.name =
      some (soundOf name).receiver := by
  have found := lookup_animal listed
  rw [receiver_soundOf, (reachable_animals.sound name _ found).1]
  exact found

theorem exposes_dog : (animal "Dog").Exposes (animal "Animal") sound := by
  obtain ⟨-, dog, -, -, -, animalKind, dogMethods, -⟩ := animals_hierarchy
  intro passed own way other declared
  rcases ReflTransGen.cases_head way with rfl | ⟨above, step, rest⟩
  · obtain ⟨index, last, present⟩ := declared
    have keyed : sound.key = soundSymbol.key := rfl
    rw [keyed, last_sound dogMethods] at last
    obtain rfl := Option.some.inj last
    rw [called_of_methods dogMethods] at present
    obtain rfl := Option.some.inj present
    exact ⟨rfl, rfl, nofun, nofun⟩
  · obtain ⟨-, extended | ⟨kind, -⟩⟩ := step
    · rw [superclass_animal (by decide) (by decide) dog] at extended
      obtain rfl := Option.some.inj extended
      rcases ReflTransGen.cases_head rest with same | ⟨_, ⟨notThere, -⟩, -⟩
      · exact absurd same.symm other
      · exact absurd rfl notThere
    · rw [animalKind] at kind
      cases kind

end Step

end JavaMachine
