import JavaMachine.Host.Session
import JavaMachine.Proofs.Class.Builtin
import JavaMachine.Proofs.Execution.Sound

/-! # The throwables that the machine raises

A throwable of the machine is an object of a built-in class with a text as its message. Nothing that
was there before changes when it is made: its class and those above it are loaded and initialized if
need be, which runs no code, and the throwable and its message are added to the heap
(`Exec.Throws`). Only if the initialization of one of these classes had failed there would be
an error instead (`Exec.throwNew_throws`); a machine where none of them has is calm. -/

namespace JavaMachine

open Loader (Defines)
open Operation (bind_of_ok bind_of_error)

/-- The built-in classes are the first ones that the sources provide. -/
def ClassSource.StartsBuiltin (sources : List ClassSource) : Prop :=
  ∃ builtin rest, Builtin.source = .ok builtin ∧ sources = builtin :: rest

/-- None of the classes that are needed for the throwables of the machine has failed to be
initialized. -/
def Machine.Calm (machine : Machine) : Prop :=
  ∀ name ∈ Builtin.throwing, machine.phases name ≠ .failed

/-- At most classes have been loaded or initialized since, and objects been added that are no arrays.
All that was there before is as it was. -/
structure Machine.Extends (before after : Machine) : Prop where
  objects (ref : Ref) (old : ref < before.heap.objects.size) :
    after.heap.get ref = before.heap.get ref
  size : before.heap.objects.size ≤ after.heap.objects.size
  plain (ref : Ref) (array : (after.heap.get ref).array?.isSome) : ref < before.heap.objects.size
  rest : after =
    { before with loaded := after.loaded, classes := after.classes, heap := after.heap }
  calm (calm : before.Calm) : after.Calm

namespace Machine.Extends

variable {machine before between after : Machine}

theorem refl (machine : Machine) : machine.Extends machine where
  objects _ _ := rfl
  size := Nat.le_refl _
  plain ref array := (Heap.shows_get machine.heap ref array).1
  rest := rfl
  calm := id

theorem trans (near : before.Extends between) (far : between.Extends after) :
    before.Extends after where
  objects ref old := (far.objects ref (old.trans_le near.size)).trans (near.objects ref old)
  size := near.size.trans far.size
  plain ref array := near.plain ref (far.objects ref (far.plain ref array) ▸ array)
  rest := by
    rw [far.rest, near.rest]
  calm calm := far.calm (near.calm calm)

theorem allocate (machine : Machine) {object : HeapObject} (plain : object.array? = none) :
    machine.Extends { machine with heap := (machine.heap.add object).2 } where
  objects ref old := Heap.get_add_of_lt old
  size := Heap.size_add.symm ▸ Nat.le_succ _
  plain ref array := by
    have within := (Heap.shows_get _ ref array).1
    rw [Heap.size_add] at within
    refine (Nat.lt_succ_iff_lt_or_eq.mp within).resolve_right fun last => ?_
    subst last
    rw [Heap.get_add_self, plain] at array
    cases array
  rest := rfl
  calm := id

/-- An object that was added may also be changed, as long as it is no array. -/
theorem set (extends_ : before.Extends after) {ref : Ref} (new : before.heap.objects.size ≤ ref)
    (slot : Nat) (value : Value) :
    before.Extends { after with heap := after.heap.set ref slot value } where
  objects other old :=
    (Heap.get_set_of_ne (Nat.ne_of_lt (old.trans_le new))).trans (extends_.objects other old)
  size := Heap.size_set.symm ▸ extends_.size
  plain other array := by
    have grows := after.heap.grows_set ref slot value
    have within := (Heap.shows_get _ other array).1
    rw [Heap.size_set] at within
    refine extends_.plain other ?_
    have same := congrArg Prod.snd (grows.shape other within)
    simp only [HeapObject.shape] at same
    rw [← Option.isSome_map, ← same, Option.isSome_map]
    exact array
  rest := by
    rw [extends_.rest]
  calm := extends_.calm

end Machine.Extends

/-- The text of a value, if it is a string. -/
def Heap.textOf (heap : Heap) : Value → Option String
  | .reference (some message) => (heap.get message).text?
  | _ => none

/-! ## Initialization without an effect -/

namespace Exec

variable {services : Services} {machine : Machine} {c : LinkedClass}

/-- The initialization of a class that has nothing to do for itself does nothing. -/
theorem initializeSelf_of_inert (statics : c.staticFields = [])
    (initializer : c.declaredMethod? MemberName.staticInitializer "()V" = none) :
    initializeSelf c services machine = .ok () machine := by
  rw [initializeSelf, statics, runInitializer, initializer]
  rfl

/-- A class is initialized if there is nothing to do for it and for those above it, unless one of them
had failed before. No class fails thereby. -/
theorem ensureInitialized_of_inert
    (inert : ∀ d ∈ c.upwards, d.staticFields = [] ∧
      d.declaredMethod? MemberName.staticInitializer "()V" = none) :
    ∃ classes,
      (ensureInitialized c services machine = .ok () { machine with classes } ∧
        ∀ name, ({ machine with classes } : Machine).phases name = .failed →
          machine.phases name = .failed) ∨
      (∃ d ∈ c.upwards, machine.phases d.name = .failed) ∧
        ∃ name, ensureInitialized c services machine =
          .error (.fatal (.classInitialization name)) { machine with classes } := by
  induction c using LinkedClass.LinksTo.wellFounded.induction generalizing machine with
  | _ c ih =>
    rw [LinkedClass.upwards_eq] at inert ⊢
    obtain ⟨statics, initializer⟩ := inert c List.mem_cons_self
    have self (machine : Machine) : initializeSelf c services machine = .ok () machine :=
      initializeSelf_of_inert statics initializer
    cases phase : machine.phases c.name with
    | done => exact ⟨_, .inl ⟨ensureInitialized_of_begun (.inl phase), fun _ => id⟩⟩
    | running => exact ⟨_, .inl ⟨ensureInitialized_of_begun (.inr phase), fun _ => id⟩⟩
    | failed =>
      exact ⟨_, .inr ⟨⟨c, List.mem_cons_self, phase⟩, c.name, ensureInitialized_of_failed phase⟩⟩
    | untouched =>
      -- From here on the class is running, so that it is not one of those that had failed.
      have before {name : String} (failed : (withPhase c .running machine).phases name = .failed) :
          machine.phases name = .failed := by
        rw [phases_withPhase, Function.update_apply] at failed
        split at failed
        · cases failed
        · exact failed
      have settled {after : Machine} {name : String}
          (failed : (withPhase c .done after).phases name = .failed) :
          after.phases name = .failed := by
        rw [phases_withPhase, Function.update_apply] at failed
        split at failed
        · cases failed
        · exact failed
      rw [ensureInitialized_of_untouched phase]
      cases extended : c.superclass with
      | none =>
        have above : ensureInitialized.ofSuperclass none services (withPhase c .running machine) =
            .ok () (withPhase c .running machine) := rfl
        have ended : (do
            ensureInitialized.ofSuperclass none
            initializeSelf c : Exec Unit) services (withPhase c .running machine) = _ :=
          (bind_of_ok above).trans (self _)
        rw [ended]
        exact ⟨_, .inl ⟨rfl, fun name failed => before (settled failed)⟩⟩
      | some above =>
        rw [extended] at inert
        obtain ⟨classes, outcome⟩ := @ih above (.superclass extended) (withPhase c .running machine)
          fun d higher => inert d (List.mem_cons_of_mem c higher)
        rw [← ensureInitialized.ofSuperclass] at outcome
        rcases outcome with ⟨ended, still⟩ | ⟨⟨d, higher, failed⟩, name, ended⟩
        · have ended : (do
              ensureInitialized.ofSuperclass (some above)
              initializeSelf c : Exec Unit) services (withPhase c .running machine) = _ :=
            (bind_of_ok ended).trans (self _)
          rw [ended]
          exact ⟨_, .inl ⟨rfl, fun name failed => before (still name (settled failed))⟩⟩
        · have ended : (do
              ensureInitialized.ofSuperclass (some above)
              initializeSelf c : Exec Unit) services (withPhase c .running machine) = _ :=
            bind_of_error ended
          rw [ended]
          exact ⟨_, .inr ⟨⟨d, List.mem_cons_of_mem c higher, before failed⟩, name, rfl⟩⟩

/-! ## Throwables -/

/-- A throwable of the machine has been made, perhaps with a message, and it is new. -/
structure Raises (before : Machine) (className : String) (message : Option String) (exception : Ref)
    (after : Machine) : Prop extends before.Extends after where
  new : before.heap.objects.size ≤ exception
  named : (after.heap.get exception).className = className
  detail : Session.detailOf after.heap exception = message

theorem throwableNames_ne {name : String} (member : name ∈ Builtin.throwableNames) :
    name ∈ Builtin.throwing ∧ name ≠ ClassName.object ∧ name ≠ ClassName.string := by
  have facts : ∀ name ∈ Builtin.throwableNames, name ≠ ClassName.object ∧ name ≠ ClassName.string := by
    decide
  exact ⟨List.mem_cons_of_mem _ member, facts name member⟩

theorem detailOf_eq {heap : Heap} {exception : Ref} {field : Field} {value : Value}
    (object : heap.get exception = ⟨c, .fields #[value]⟩)
    (found : c.instanceField? MemberName.detailMessage = some field) (slot : field.slot = 0) :
    Session.detailOf heap exception = heap.textOf value := by
  simp only [Session.detailOf, object, found, Option.bind_eq_bind, Option.bind_some,
    HeapObject.field?, slot]
  rcases value with - | - | - | - | ⟨_ | _⟩ | - | - <;> rfl

theorem exists_of_load_ok {after : Machine} {name : String}
    (ended : load name services machine = .ok c after) :
    ∃ loaded, after = { machine with loaded } := by
  unfold load at ended
  split at ended
  · cases ended
    exact ⟨_, rfl⟩
  · cases ended

/-- The class of a throwable is loaded and initialized. -/
theorem load_throwing {className : String} (builtin : ClassSource.StartsBuiltin services.sources)
    (sound : machine.Sound services.sources) (member : className ∈ Builtin.throwing) :
    ∃ c loaded, Exec.load className services machine = .ok c { machine with loaded } ∧
      c.name = className ∧ ∀ d ∈ c.upwards, Loader.Throwing d := by
  obtain ⟨builtin, rest, built, sources⟩ := builtin
  obtain ⟨c, loaded, defined, rfl, ended⟩ :=
    Loader.Sound.load_throwing built (sources ▸ sound.loaded) member
  refine ⟨c, loaded, ?_, rfl, fun d above => defined.throwing built member above⟩
  rw [Exec.load, sources, ended]

/-- A class that was loaded and initialized without an effect. -/
theorem extends_of_prepared {loaded : LoadedClasses} {classes : List (String × ClassState)}
    (calm : machine.Calm → ({ machine with loaded, classes } : Machine).Calm) :
    machine.Extends { machine with loaded, classes } where
  objects _ _ := rfl
  size := Nat.le_refl _
  plain ref array := (Heap.shows_get machine.heap ref array).1
  rest := rfl
  calm := calm

theorem newThrowable_raises {className : String} (builtin : ClassSource.StartsBuiltin services.sources)
    (sound : machine.Sound services.sources) (member : className ∈ Builtin.throwableNames)
    (message : Option String) :
    ∃ after, machine.Extends after ∧
      ((∃ exception, newThrowable className message services machine = .ok exception after ∧
        Raises machine className message exception after) ∨
      (¬ machine.Calm ∧ ∃ name, newThrowable className message services machine =
          .error (.fatal (.classInitialization name)) after)) := by
  obtain ⟨throwing, below, noString⟩ := throwableNames_ne member
  obtain ⟨c, loaded, loading, rfl, above⟩ := load_throwing builtin sound throwing
  obtain ⟨classes, outcome⟩ := @ensureInitialized_of_inert services { machine with loaded } c
    fun d higher => (above d higher).inert
  rcases outcome with ⟨initialized, still⟩ | ⟨⟨d, higher, failed⟩, name, ended⟩
  case inr =>
    have stormy : ¬ machine.Calm := fun calm => calm d.name (above d higher).named failed
    refine ⟨{ machine with loaded, classes }, ?_, .inr ⟨stormy, name, ?_⟩⟩
    · exact extends_of_prepared fun calm => absurd calm stormy
    · exact (bind_of_ok loading).trans (bind_of_error ended)
  let prepared : Machine := { machine with loaded, classes }
  have ready : machine.Extends prepared :=
    extends_of_prepared fun calm name member failed => calm name member (still name failed)
  have self : c ∈ c.upwards := c.upwards_eq ▸ List.mem_cons_self
  obtain ⟨field, fields, found, slot⟩ := (above c self).exists_message below
  have object : HeapObject.ofClass c = ⟨c, .fields #[.zero field.type]⟩ := by
    rw [HeapObject.ofClass, if_neg (by simpa using noString), fields]
    rfl
  let exception : Ref := machine.heap.objects.size
  let given : Machine := { prepared with heap := (prepared.heap.add (.ofClass c)).2 }
  have allocated : prepared.Extends given := .allocate prepared (by rw [object]; rfl)
  have present : given.heap.get exception = ⟨c, .fields #[.zero field.type]⟩ := by
    rw [← object]
    exact Heap.get_add_self
  have allocating : allocate (.ofClass c) services prepared = .ok exception given := rfl
  cases message with
  | none =>
    have made : newThrowable c.name none services machine = .ok exception given :=
      (bind_of_ok loading).trans ((bind_of_ok initialized).trans (bind_of_ok allocating))
    have extends_ := ready.trans allocated
    refine ⟨given, extends_, .inl ⟨exception, made, extends_, Nat.le_refl _, ?_, ?_⟩⟩
    · rw [present]
      rfl
    · rw [detailOf_eq present found slot]
      cases field.type <;> rfl
  | some text =>
    let worded : Machine :=
      { given with heap := (given.heap.add ⟨services.stringClass, .text text⟩).2 }
    have wording : given.Extends worded := .allocate given rfl
    have inside : exception < given.heap.objects.size := Heap.size_add ▸ Nat.lt_succ_self _
    have still : worded.heap.get exception = ⟨c, .fields #[.zero field.type]⟩ :=
      (wording.objects exception inside).trans present
    have string : worded.heap.get given.heap.objects.size = ⟨services.stringClass, .text text⟩ :=
      Heap.get_add_self
    have naming : newString text services given = .ok given.heap.objects.size worded := rfl
    have put : putField exception field.slot (.reference (some given.heap.objects.size)) services worded =
        .ok () { worded with
          heap := worded.heap.set exception field.slot
            (.reference (some given.heap.objects.size)) } := by
      rw [putField_eq, still, slot]
      rfl
    have filled : (worded.heap.set exception field.slot
        (.reference (some given.heap.objects.size))).get exception =
          ⟨c, .fields #[.reference (some given.heap.objects.size)]⟩ := by
      rw [Heap.get_set_self (inside.trans_le wording.size), still, slot]
      rfl
    have stillString : (worded.heap.set exception field.slot
        (.reference (some given.heap.objects.size))).get given.heap.objects.size =
          ⟨services.stringClass, .text text⟩ :=
      (Heap.get_set_of_ne (Nat.ne_of_gt inside)).trans string
    have made : newThrowable c.name (some text) services machine = .ok exception { worded with
          heap := worded.heap.set exception field.slot
            (.reference (some given.heap.objects.size)) } := by
      refine (bind_of_ok loading).trans ((bind_of_ok initialized).trans ?_)
      refine (bind_of_ok allocating).trans ?_
      dsimp only
      rw [found]
      exact (bind_of_ok naming).trans ((bind_of_ok put).trans rfl)
    have extends_ := ((ready.trans allocated).trans wording).set (Nat.le_refl exception) field.slot
      (.reference (some given.heap.objects.size))
    refine ⟨_, extends_, .inl ⟨exception, made, extends_, Nat.le_refl _, ?_, ?_⟩⟩
    · rw [filled]
      rfl
    · rw [detailOf_eq filled found slot]
      exact congrArg HeapObject.text? stillString

/-- How something ends that throws a throwable of the machine. Only in a machine that is not calm can
it end with an error instead. -/
def Throws {σ α : Type} [MachineState σ] (before : Machine) (className : String)
    (message : Option String) (result : EStateM.Result Interruption σ α) : Prop :=
  ∃ after, before.Extends (MachineState.machine after) ∧
    ((∃ exception, result = .error (.thrown exception) after ∧
      Raises before className message exception (MachineState.machine after)) ∨
    (¬ before.Calm ∧ ∃ name, result = .error (.fatal (.classInitialization name)) after))

section Throws

variable {σ α β : Type} [MachineState σ] {before between : Machine} {className : String}
  {message : Option String}

theorem Throws.after (near : before.Extends between) {result : EStateM.Result Interruption σ α}
    (throws : Throws between className message result) : Throws before className message result := by
  obtain ⟨after, far, outcome⟩ := throws
  refine ⟨after, near.trans far, outcome.imp ?_ ?_⟩
  · rintro ⟨exception, rfl, raises⟩
    exact ⟨exception, rfl, { near.trans far, raises with new := near.size.trans raises.new }⟩
  · rintro ⟨stormy, ended⟩
    exact ⟨fun calm => stormy (near.calm calm), ended⟩

theorem Throws.ofExec {action : Exec α} {state : σ}
    (throws : Throws before className message (action services (MachineState.machine state))) :
    Throws before className message (Operation.ofExec action services state) := by
  obtain ⟨after, extends_, outcome⟩ := throws
  have there : MachineState.machine (MachineState.replace state after) = after :=
    MachineState.machine_replace state after
  unfold Operation.ofExec
  refine ⟨MachineState.replace state after, by rwa [there], outcome.imp ?_ ?_⟩
  · rintro ⟨exception, ended, raises⟩
    rw [ended]
    exact ⟨exception, rfl, by rwa [there]⟩
  · rintro ⟨stormy, name, ended⟩
    rw [ended]
    exact ⟨stormy, name, rfl⟩

theorem Throws.ne_ok {result : EStateM.Result Interruption σ α}
    (throws : Throws before className message result) (value : α) (after : σ) :
    result ≠ .ok value after := by
  rintro rfl
  obtain ⟨_, _, ⟨_, ended, _⟩ | ⟨_, _, ended⟩⟩ := throws
  · cases ended
  · cases ended

/-- Nothing comes after what was thrown. -/
theorem Throws.bind {operation : Operation σ α} {state : σ}
    (throws : Throws before className message (operation services state))
    (next : α → Operation σ β) :
    Throws before className message ((operation >>= next) services state) := by
  obtain ⟨after, extends_, outcome⟩ := throws
  refine ⟨after, extends_, outcome.imp ?_ ?_⟩
  · rintro ⟨exception, ended, raises⟩
    exact ⟨exception, bind_of_error ended, raises⟩
  · rintro ⟨stormy, name, ended⟩
    exact ⟨stormy, name, bind_of_error ended⟩

end Throws

/-- **The machine throws what it says it throws**, and changes nothing else: from a sound and calm
machine that has the built-in classes the throwable is made and thrown. -/
theorem throwNew_throws {α : Type} {className : String}
    (builtin : ClassSource.StartsBuiltin services.sources)
    (sound : machine.Sound services.sources) (member : className ∈ Builtin.throwableNames)
    (message : Option String) :
    Throws machine className message (throwNew className message services machine :
      EStateM.Result Interruption Machine α) := by
  obtain ⟨after, extends_, outcome⟩ := newThrowable_raises builtin sound member message
  refine ⟨after, extends_, outcome.imp ?_ ?_⟩
  · rintro ⟨exception, made, raises⟩
    exact ⟨exception, bind_of_ok made, raises⟩
  · rintro ⟨stormy, name, ended⟩
    exact ⟨stormy, name, bind_of_error ended⟩

end Exec

/-! ## The built-in classes alone -/

/-- A machine that has done nothing but load classes is sound. -/
theorem Machine.sound_of_loaded {sources : List ClassSource} {loaded : LoadedClasses}
    (sound : Loader.Sound sources loaded) : ({ loaded } : Machine).Sound sources where
  loaded := sound
  heap := fun ref within => absurd within (Nat.not_lt_zero ref)
  classes _ defined := .initial defined
  links _ _ _ _ _ _ linked := by cases linked

/-- A new machine is sound, wherever its classes come from. -/
theorem Machine.sound_new (sources : List ClassSource) : ({} : Machine).Sound sources :=
  sound_of_loaded fun _ _ known => by cases known

namespace Services

/-- The services of a machine with the built-in classes alone. -/
def builtin : Services where
  sources := [Loader.builtinClasses]
  limits := {}
  stringClass := default
  invoke := fun _ _ _ => throw .outOfFuel

theorem startsBuiltin_builtin : ClassSource.StartsBuiltin builtin.sources :=
  ⟨Loader.builtinClasses, [], Loader.source_eq_builtinClasses, rfl⟩

end Services

end JavaMachine
