import JavaMachine.Proofs.Class.History
import JavaMachine.Proofs.Class.Lineage
import JavaMachine.Proofs.Execution.Throwables
import JavaMachine.Proofs.Host.Calls
import JavaMachine.Proofs.Instruction.Defaults

/-! # Methods that hosts look up by name

A call of the host tries the methods of a name in the order of the ancestors, one for each
descriptor, and takes the first one that accepts the arguments. Which one that is does not depend on
what the check of the earlier ones has loaded. All of this is put together in `Target.looksUp`. -/

namespace JavaMachine

open Operation (bind_of_ok bind_of_error)
open Relation (ReflTransGen)
open Value (toSlots passed)

/-! ## AlwaysGives that do not depend on what is loaded -/

namespace Exec

variable {α β : Type} {services : Services} {machine : Machine} {action : Exec α} {answer : α}

/-- An action loads classes at most, and gives the same answer whatever is loaded before. -/
def AlwaysGives (services : Services) (machine : Machine) (action : Exec α) (answer : α) : Prop :=
  ∀ loaded, ({ machine with loaded } : Machine).Sound services.sources →
    ∃ after, action services { machine with loaded } = .ok answer { machine with loaded := after } ∧
      ({ machine with loaded := after } : Machine).Sound services.sources

theorem alwaysGives_pure (value : α) : AlwaysGives services machine (pure value) value :=
  fun loaded sound => ⟨loaded, rfl, sound⟩

theorem AlwaysGives.bind {next : α → Exec β} {result : β}
    (first : AlwaysGives services machine action answer)
    (rest : AlwaysGives services machine (next answer) result) :
    AlwaysGives services machine (action >>= next) result := by
  intro loaded sound
  obtain ⟨between, ended, soundBetween⟩ := first loaded sound
  obtain ⟨after, endedRest, soundAfter⟩ := rest between soundBetween
  exact ⟨after, (bind_of_ok ended).trans endedRest, soundAfter⟩

theorem AlwaysGives.unique {other : α} (answers : AlwaysGives services machine action answer)
    (sound : machine.Sound services.sources) {after : Machine}
    (ended : action services machine = .ok other after) : other = answer := by
  obtain ⟨loaded, same, -⟩ := answers machine.loaded sound
  rw [ended] at same
  cases same
  rfl

/-- A class that is asked for is there or not, whatever is loaded. -/
theorem exists_alwaysGives_loadIfPresent (bounded : ∀ source ∈ services.sources, source.Bounded)
    (machine : Machine) (name : String) : ∃ found, AlwaysGives services machine
      (tryCatch (some <$> load name) fun _ => pure none) found := by
  let outcome := Loader.outcome (Loader.forgetful.resolve services.sources
    (Loader.depthBound services.sources) [] name ())
  refine ⟨outcome.toOption, fun loaded sound => ?_⟩
  have same : Loader.outcome (Loader.load services.sources name loaded) = outcome :=
    sound.loaded.outcome_eq_forgetful bounded name
  have after := (sound.succeeds_load name).1.sound
  simp only [MonadExcept.tryCatch, tryCatchThe, MonadExceptOf.tryCatch, EStateM.tryCatch,
    map_eq_pure_bind, Bind.bind, ReaderT.bind, EStateM.bind]
  rw [← same]
  unfold load at after ⊢
  cases ended : Loader.load services.sources name loaded with
  | ok c loaded =>
    simp only [ended] at after ⊢
    exact ⟨loaded, rfl, after⟩
  | error error loaded =>
    simp only [ended] at after ⊢
    exact ⟨loaded, rfl, after⟩

end Exec

/-! ## Acceptance -/

namespace HostValue

open Exec

variable {services : Services}

mutual

/-- Whether a value is accepted does not depend on what is loaded. -/
theorem exists_alwaysGives_acceptedBy (bounded : ∀ source ∈ services.sources, source.Bounded)
    (machine : Machine) (type : FieldType) (value : HostValue) :
    ∃ accepted, AlwaysGives services machine (value.acceptedBy type) accepted := by
  cases value with
  | array items =>
    unfold acceptedBy
    split
    · exact exists_alwaysGives_allAccepted bounded machine _ items
    · split
      · exact exists_alwaysGives_allAccepted bounded machine _ items
      · exact ⟨_, alwaysGives_pure false⟩
    · exact ⟨_, alwaysGives_pure false⟩
  | object ref =>
    unfold acceptedBy
    split
    · obtain ⟨target, found⟩ := exists_alwaysGives_loadIfPresent bounded machine type.className
      have looked : AlwaysGives services machine (Exec.object ref) (machine.heap.get ref) :=
        fun loaded sound => ⟨loaded, rfl, sound⟩
      exact ⟨_, looked.bind (found.bind (alwaysGives_pure _))⟩
    · exact ⟨_, alwaysGives_pure false⟩
  | _ => exact ⟨_, alwaysGives_pure _⟩

theorem exists_alwaysGives_allAccepted (bounded : ∀ source ∈ services.sources, source.Bounded)
    (machine : Machine) (type : FieldType) (items : List HostValue) :
    ∃ accepted, AlwaysGives services machine (acceptedBy.allAccepted type items) accepted := by
  cases items with
  | nil => exact ⟨_, alwaysGives_pure true⟩
  | cons first rest =>
    obtain ⟨isFirst, answersFirst⟩ := exists_alwaysGives_acceptedBy bounded machine type first
    obtain ⟨areRest, answersRest⟩ := exists_alwaysGives_allAccepted bounded machine type rest
    cases isFirst with
    | true => exact ⟨areRest, answersFirst.bind answersRest⟩
    | false => exact ⟨false, answersFirst.bind (alwaysGives_pure false)⟩

end

end HostValue

/-! ## The first method that accepts the arguments -/

namespace Candidate

open Exec

variable {services : Services} {machine : Machine} {arguments : List HostValue}
  {types : List FieldType} {candidate : Candidate} {candidates skipped rest : List Candidate}
  {c : LinkedClass} {name : String}

/-- A method has as many parameters as there are arguments, and each one accepts its argument. -/
def Accepts (services : Services) (machine : Machine) (arguments : List HostValue)
    (candidate : Candidate) : Prop :=
  List.Forall₂ (fun type value => ∃ after, HostValue.acceptedBy type value services machine =
    .ok true after) candidate.method.descriptor.parameters arguments

section Accepts

variable (bounded : ∀ source ∈ services.sources, source.Bounded)
  (sound : machine.Sound services.sources)

include bounded sound

theorem exists_alwaysGives_acceptsEach (same : types.length = arguments.length) :
    ∃ accepted, AlwaysGives services machine (acceptsEach types arguments) accepted ∧
      (accepted = true ↔ List.Forall₂ (fun type value => ∃ after,
        HostValue.acceptedBy type value services machine = .ok true after) types arguments) := by
  induction types generalizing arguments with
  | nil =>
    obtain rfl := List.eq_nil_of_length_eq_zero same.symm
    exact ⟨true, alwaysGives_pure true, iff_of_true rfl .nil⟩
  | cons type types ih =>
    cases arguments with
    | nil => cases same
    | cons argument arguments =>
      obtain ⟨isFirst, answersFirst⟩ :=
        HostValue.exists_alwaysGives_acceptedBy bounded machine type argument
      obtain ⟨areRest, answersRest, iffRest⟩ := ih (Nat.succ.inj same)
      rw [List.forall₂_cons, ← iffRest]
      cases isFirst with
      | true =>
        obtain ⟨after, ended, -⟩ := answersFirst machine.loaded sound
        exact ⟨areRest, answersFirst.bind answersRest, (and_iff_right ⟨_, ended⟩).symm⟩
      | false =>
        refine ⟨false, answersFirst.bind (alwaysGives_pure false), ?_⟩
        refine iff_of_false Bool.false_ne_true fun both => ?_
        obtain ⟨after, ended⟩ := both.1
        cases answersFirst.unique sound ended

theorem exists_alwaysGives_takes (arguments : List HostValue) (candidate : Candidate) :
    ∃ taken, AlwaysGives services machine (candidate.takes arguments) taken ∧
      (taken = true ↔ candidate.Accepts services machine arguments) := by
  unfold takes
  dsimp only
  split
  · next same => exact exists_alwaysGives_acceptsEach bounded sound same
  · next differ =>
    exact ⟨false, alwaysGives_pure false,
      iff_of_false Bool.false_ne_true fun accepts => differ accepts.length_eq⟩

theorem alwaysGives_takes_of_accepts (accepts : candidate.Accepts services machine arguments) :
    AlwaysGives services machine (candidate.takes arguments) true := by
  obtain ⟨taken, answers, same⟩ := exists_alwaysGives_takes bounded sound arguments candidate
  exact same.mpr accepts ▸ answers

theorem alwaysGives_takes_of_refuses (refuses : ¬ candidate.Accepts services machine arguments) :
    AlwaysGives services machine (candidate.takes arguments) false := by
  obtain ⟨taken, answers, same⟩ := exists_alwaysGives_takes bounded sound arguments candidate
  cases taken with
  | true => exact absurd (same.mp rfl) refuses
  | false => exact answers

theorem alwaysGives_firstTaking_of_refuse
    (refuse : ∀ other ∈ candidates, ¬ other.Accepts services machine arguments) :
    AlwaysGives services machine (firstTaking arguments candidates) none := by
  induction candidates with
  | nil => exact alwaysGives_pure none
  | cons first rest ih =>
    exact (alwaysGives_takes_of_refuses bounded sound (refuse first List.mem_cons_self)).bind
      (ih fun other member => refuse other (List.mem_cons_of_mem _ member))

theorem alwaysGives_firstTaking_of_accepts
    (refuse : ∀ other ∈ skipped, ¬ other.Accepts services machine arguments)
    (accepts : candidate.Accepts services machine arguments) :
    AlwaysGives services machine (firstTaking arguments (skipped ++ candidate :: rest))
      (some candidate) := by
  induction skipped with
  | nil => exact (alwaysGives_takes_of_accepts bounded sound accepts).bind (alwaysGives_pure _)
  | cons first skipped ih =>
    exact (alwaysGives_takes_of_refuses bounded sound (refuse first List.mem_cons_self)).bind
      (ih fun other member => refuse other (List.mem_cons_of_mem _ member))

/-- If there are methods of the name and none accepts the arguments, the arguments are at fault. -/
theorem exists_select_of_refuse (nonempty : candidates ≠ [])
    (refuse : ∀ other ∈ candidates, ¬ other.Accepts services machine arguments) :
    ∃ after, select c name candidates arguments services machine =
      .error (.fatal (.illegalArgument (.rejectedByOverloads (ClassName.dotted c.name) name
        (HostValue.typeNames arguments)))) after := by
  obtain ⟨loaded, ended, -⟩ :=
    alwaysGives_firstTaking_of_refuse bounded sound refuse machine.loaded sound
  have filled : candidates.isEmpty = false := List.isEmpty_eq_false_iff.mpr nonempty
  refine ⟨{ machine with loaded }, ?_⟩
  simp only [select, filled, Bool.false_eq_true, if_false]
  exact bind_of_ok ended

/-- The first method of the name that accepts the arguments is selected. -/
theorem exists_select_of_accepts
    (refuse : ∀ other ∈ skipped, ¬ other.Accepts services machine arguments)
    (accepts : candidate.Accepts services machine arguments) :
    ∃ loaded, select c name (skipped ++ candidate :: rest) arguments services machine =
      .ok candidate { machine with loaded } := by
  have gives : AlwaysGives services machine
      (firstTaking arguments (skipped ++ candidate :: rest)) (some candidate) :=
    alwaysGives_firstTaking_of_accepts bounded sound refuse accepts
  obtain ⟨loaded, ended, -⟩ := gives machine.loaded sound
  have filled : (skipped ++ candidate :: rest).isEmpty = false := by
    rw [List.isEmpty_eq_false_iff]
    exact List.append_ne_nil_of_right_ne_nil _ (List.cons_ne_nil _ _)
  refine ⟨loaded, ?_⟩
  simp only [select, filled, Bool.false_eq_true, if_false]
  exact bind_of_ok ended

end Accepts

theorem select_nil (c : LinkedClass) (name : String) (arguments : List HostValue) :
    select c name [] arguments services machine =
      .error (.fatal (.noSuchMethod c.name name)) machine :=
  rfl

/-- None of some methods accepts the arguments, or one is the first that does. -/
theorem refuse_or_exists_first (services : Services) (machine : Machine)
    (arguments : List HostValue) (candidates : List Candidate) :
    (∀ other ∈ candidates, ¬ other.Accepts services machine arguments) ∨
      ∃ skipped candidate rest, candidates = skipped ++ candidate :: rest ∧
        (∀ other ∈ skipped, ¬ other.Accepts services machine arguments) ∧
        candidate.Accepts services machine arguments := by
  induction candidates with
  | nil => exact .inl fun _ none => (List.not_mem_nil none).elim
  | cons first rest ih =>
    by_cases accepts : first.Accepts services machine arguments
    · exact .inr ⟨[], first, rest, rfl, fun _ none => (List.not_mem_nil none).elim, accepts⟩
    · rcases ih with refuse | ⟨skipped, candidate, others, split, refuse, accepted⟩
      · exact .inl (List.forall_mem_cons.mpr ⟨accepts, refuse⟩)
      · exact .inr ⟨first :: skipped, candidate, others, congrArg (first :: ·) split,
          List.forall_mem_cons.mpr ⟨accepts, refuse⟩, accepted⟩

/-- The method that a call ends up in, and the machine then: a static method once its class is
initialized, a private method, or what the class of the object has for any other one. -/
inductive Reaches (services : Services) (machine : Machine) (called : Candidate) :
    Option Ref → LinkedClass → Nat → Machine → Prop where
  | static {after : Machine}
      (initialized : Exec.ensureInitialized called.owner services machine = .ok () after) :
      Reaches services machine called none called.owner called.index after
  | itself {ref : Ref} (hidden : called.method.isPrivate = true) :
      Reaches services machine called (some ref) called.owner called.index machine
  | dispatched {ref : Ref} {owner : LinkedClass} {index : Nat}
      (inherited : called.method.isPrivate = false)
      (found : (machine.heap.get ref).type.findMethod? called.method.key = some (owner, index)) :
      Reaches services machine called (some ref) owner index machine

theorem call_of_reaches {receiver : Option Ref} {values : List Value} {between after : Machine}
    {owner : LinkedClass} {index : Nat}
    (converted : candidate.convert arguments services machine = .ok values between)
    (reaches : candidate.Reaches services between receiver owner index after) :
    candidate.call receiver arguments services machine =
      (Exec.invoke owner index (toSlots (passed receiver values)) >>= candidate.giveResult)
        services after := by
  unfold call
  rw [bind_of_ok converted]
  cases reaches with
  | static initialized =>
    dsimp only
    rw [bind_of_ok initialized]
    rfl
  | itself hidden =>
    simp only [dispatch, hidden, if_true, pure_bind]
    rfl
  | @dispatched ref _ _ inherited found =>
    have chosen : candidate.dispatch ref services between = .ok (owner, index) between := by
      have held : Exec.object ref services between = .ok (between.heap.get ref) between := rfl
      simp only [dispatch, inherited, Bool.false_eq_true, if_false]
      rw [bind_of_ok held, found]
      rfl
    dsimp only
    rw [bind_of_ok chosen]
    rfl

end Candidate

/-! ## Looking a method up -/

/-- A class declares what is found there by its index. -/
theorem Candidate.mem_declaredIn_iff {c : LinkedClass} {test : Method → Bool}
    {candidate : Candidate} : candidate ∈ Candidate.declaredIn c test ↔
      candidate.owner = c ∧ c.method? candidate.index = some candidate.method ∧
        test candidate.method = true := by
  constructor
  · intro member
    obtain ⟨present, passes⟩ := Candidate.present_of_mem member
    obtain rfl := Candidate.owner_of_mem member
    exact ⟨rfl, present, passes⟩
  · obtain ⟨owner, index, method⟩ := candidate
    rintro ⟨rfl, present, passes⟩
    refine List.mem_map.mpr ⟨(method, index), List.mem_filter.mpr ⟨?_, passes⟩, rfl⟩
    rw [List.mk_mem_zipIdx_iff_getElem?, Array.getElem?_toList]
    exact present

/-- The declarations that a call may mean by a name, in the order of the ancestors. -/
def Target.declarations (target : Target) (name : String) : List Candidate :=
  Candidate.declarations target.type name target.receiver.isNone

/-- How methods are looked up by a name. -/
structure Target.LooksUp (services : Services) (machine : Machine) (target : Target)
    (name : String) : Prop where
  /-- A search that keeps a list of the classes to visit finds the same. -/
  searched : target.candidates name =
    Candidate.search
      (fun method => method.name == name && method.isStatic == target.receiver.isNone)
      [target.type] [] []
  /-- The descriptors are those of the methods of the name and the kind that the class, its
  superclasses and its superinterfaces declare. -/
  complete (descriptor : String) :
    descriptor ∈ (target.candidates name).map Candidate.descriptorText ↔
      ∃ above index method,
        ReflTransGen (fun c above => c.superclass = some above ∨ above ∈ c.interfaces)
          target.type above ∧
        above.method? index = some method ∧ method.name = name ∧
        method.isStatic = target.receiver.isNone ∧ method.descriptorText = descriptor
  /-- There is one method for each descriptor. -/
  once : ((target.candidates name).map Candidate.descriptorText).Nodup
  /-- It is the first one with its descriptor that is declared. -/
  first (candidate : Candidate) : candidate ∈ target.candidates name ↔
    (target.declarations name).find? (·.descriptorText == candidate.descriptorText) = some candidate
  /-- The methods are in the order in which they are declared. -/
  ordered : (target.candidates name).Pairwise fun earlier later =>
    (target.declarations name).findIdx (·.descriptorText == earlier.descriptorText) <
      (target.declarations name).findIdx (·.descriptorText == later.descriptorText)
  noMethod (arguments : List HostValue) :
    (∃ after,
      Candidate.select target.type name (target.candidates name) arguments services machine =
        .error (.fatal (.noSuchMethod target.type.name name)) after) ↔ target.candidates name = []
  refused (arguments : List HostValue) :
    (∃ after,
      Candidate.select target.type name (target.candidates name) arguments services machine =
        .error (.fatal (.illegalArgument (.rejectedByOverloads (ClassName.dotted target.type.name)
          name (HostValue.typeNames arguments)))) after) ↔
      target.candidates name ≠ [] ∧
        ∀ other ∈ target.candidates name, ¬ other.Accepts services machine arguments
  /-- The first method that accepts the arguments runs with them, or the one that the class of the
  object has in its place. -/
  calls (arguments : List HostValue) (skipped rest : List Candidate) (candidate : Candidate)
    (split : target.candidates name = skipped ++ candidate :: rest)
    (refuse : ∀ other ∈ skipped, ¬ other.Accepts services machine arguments)
    (accepts : candidate.Accepts services machine arguments) :
    ∃ loaded,
      Candidate.select target.type name (target.candidates name) arguments services machine =
        .ok candidate { machine with loaded } ∧
      ∀ values between owner index after,
        candidate.convert arguments services { machine with loaded } = .ok values between →
        candidate.Reaches services between target.receiver owner index after →
        target.call name arguments services machine =
          (Exec.invoke owner index (toSlots (passed target.receiver values)) >>=
            candidate.giveResult) services after

namespace Target

variable {services : Services} {machine : Machine} {target : Target} {name : String}

theorem exists_declared_iff {descriptor : String} :
    descriptor ∈ (target.declarations name).map Candidate.descriptorText ↔
      ∃ above index method,
        ReflTransGen (fun c above => c.superclass = some above ∨ above ∈ c.interfaces)
          target.type above ∧
        above.method? index = some method ∧ method.name = name ∧
        method.isStatic = target.receiver.isNone ∧ method.descriptorText = descriptor := by
  have relation : (fun c above : LinkedClass => above ∈ c.parents) =
      fun c above => c.superclass = some above ∨ above ∈ c.interfaces := by
    funext c above
    exact propext LinkedClass.mem_parents_iff
  have tests (method : Method) :
      (method.name == name && method.isStatic == target.receiver.isNone) = true ↔
        method.name = name ∧ method.isStatic = target.receiver.isNone := by
    rw [Bool.and_eq_true, beq_iff_eq, beq_iff_eq]
  rw [← relation]
  constructor
  · intro member
    obtain ⟨candidate, declared, rfl⟩ := List.mem_map.mp member
    obtain ⟨above, inherited, declared⟩ := List.mem_flatMap.mp declared
    obtain ⟨rfl, present, passes⟩ := Candidate.mem_declaredIn_iff.mp declared
    obtain ⟨named, kind⟩ := (tests _).mp passes
    exact ⟨_, _, _, LinkedClass.mem_preorder_iff.mp inherited, present, named, kind, rfl⟩
  · rintro ⟨above, index, method, path, present, named, kind, rfl⟩
    have declared : (⟨above, index, method⟩ : Candidate) ∈ target.declarations name :=
      List.mem_flatMap.mpr ⟨above, LinkedClass.mem_preorder_iff.mpr path,
        Candidate.mem_declaredIn_iff.mpr ⟨rfl, present, (tests method).mpr ⟨named, kind⟩⟩⟩
    exact List.mem_map_of_mem declared

/-- **Methods are looked up completely and in order**, whatever the hierarchy of the class is, and a
call goes on with the first one that accepts its arguments. -/
theorem looksUp
    (hosts : ∀ lookup size, .host lookup size ∈ services.sources →
      (ClassSource.host lookup size).Bounded)
    (sound : machine.Sound services.sources)
    (defined : Loader.Defines services.sources target.type) (name : String) :
    target.LooksUp services machine name := by
  have bounded := ClassSource.bounded_of_hosts hosts
  have firsts : target.candidates name = List.firstsBy Candidate.descriptorText []
      (target.declarations name) := Candidate.all_eq defined.namesApart
  constructor
  case searched => exact (Candidate.search_eq_all _ _ _).symm
  case complete =>
    intro descriptor
    rw [← exists_declared_iff, firsts, List.mem_map_firstsBy_iff]
    exact and_iff_right List.not_mem_nil
  case once =>
    rw [firsts]
    exact List.nodup_map_firstsBy _ _
  case first =>
    intro candidate
    rw [firsts, List.mem_firstsBy_iff]
    exact and_iff_right List.not_mem_nil
  case ordered =>
    rw [firsts]
    exact List.pairwise_firstsBy _ _
  case noMethod =>
    intro arguments
    constructor
    · rintro ⟨after, ended⟩
      refine by_contra fun filled => ?_
      rcases Candidate.refuse_or_exists_first services machine arguments
        (target.candidates name) with refuse | ⟨skipped, candidate, rest, split, refuse, accepts⟩
      · obtain ⟨_, same⟩ := Candidate.exists_select_of_refuse bounded sound filled refuse
        cases ended.symm.trans same
      · obtain ⟨_, same⟩ := Candidate.exists_select_of_accepts bounded sound refuse accepts
        rw [split, same] at ended
        cases ended
    · intro none
      rw [none]
      exact ⟨machine, Candidate.select_nil _ _ _⟩
  case refused =>
    intro arguments
    constructor
    · rintro ⟨after, ended⟩
      rcases Candidate.refuse_or_exists_first services machine arguments
        (target.candidates name) with refuse | ⟨skipped, candidate, rest, split, refuse, accepts⟩
      · refine ⟨fun none => ?_, refuse⟩
        rw [none, Candidate.select_nil] at ended
        cases ended
      · obtain ⟨_, same⟩ := Candidate.exists_select_of_accepts bounded sound refuse accepts
        rw [split, same] at ended
        cases ended
    · rintro ⟨filled, refuse⟩
      exact Candidate.exists_select_of_refuse bounded sound filled refuse
  case calls =>
    intro arguments skipped rest candidate split refuse accepts
    obtain ⟨loaded, selected⟩ := Candidate.exists_select_of_accepts bounded sound refuse accepts
    rw [← split] at selected
    refine ⟨loaded, selected, fun values between owner index after converted reaches => ?_⟩
    rw [← Candidate.call_of_reaches converted reaches]
    exact bind_of_ok selected

/-! ## A lamp -/

open Loader (builtinClasses lampSource lamps lamp)

/-- The services of a machine that knows lamps. -/
def lampServices : Services :=
  { Services.builtin with sources := [builtinClasses, lampSource] }

/-- A machine that has loaded the lamps and made one. -/
def lampMachine : Machine :=
  { ({} : Machine) with
    loaded := lamps
    heap := (({} : Heap).add (.ofClass (lamp "Lamp"))).2 }

/-- The lamp. What it may be asked to do is declared by what glows and by what has a switch, which
it is in two ways. -/
def aLamp : Target := ⟨lamp "Lamp", some 0⟩

theorem defines_aLamp : Loader.Defines lampServices.sources (lamp "Lamp") :=
  Loader.defines_lamp (by decide)

theorem sound_lampMachine : lampMachine.Sound lampServices.sources := by
  have start : ({ loaded := lamps } : Machine).Sound lampServices.sources :=
    Machine.sound_of_loaded Loader.reachable_lamps.sound
  exact (start.succeeds_heap (start.heap.add (HeapObject.sound_ofClass (.inl defines_aLamp)))
    (Heap.grows_add _ _)).sound

theorem looksUp_lamp : (∀ lookup size, .host lookup size ∈ lampServices.sources →
      (ClassSource.host lookup size).Bounded) ∧
    lampMachine.Sound lampServices.sources ∧
    aLamp.LooksUp lampServices lampMachine "shine" ∧
    "()I" ∈ (aLamp.candidates "shine").map Candidate.descriptorText := by
  have hosts (lookup : String → Except Error (Option (List UInt8))) (size : Nat)
      (member : .host lookup size ∈ lampServices.sources) :
      (ClassSource.host lookup size).Bounded := by
    rcases List.mem_cons.mp member with same | member
    · have built := Loader.source_eq_builtinClasses
      rw [← same, Builtin.source, Except.bind_eq_ok_iff] at built
      obtain ⟨files, -, clash⟩ := built
      cases clash
    · have same := List.mem_singleton.mp member
      unfold lampSource at same
      split at same <;> cases same
  have found : aLamp.LooksUp lampServices lampMachine "shine" :=
    looksUp hosts sound_lampMachine defines_aLamp "shine"
  refine ⟨hosts, sound_lampMachine, found, (found.complete "()I").mpr ?_⟩
  have glows : lamp "Glow" ∈ aLamp.type.interfaces := by
    rw [aLamp, (Loader.parts_lamp (by decide) Loader.lamps_facts.2.2.2.1).2.1]
    exact List.mem_cons_self
  refine ⟨lamp "Glow", 0, Loader.shining, .single (.inr glows), ?_, rfl, rfl, rfl⟩
  rw [LinkedClass.method?, Loader.parts_glow.2.2]
  rfl

end Target

end JavaMachine
