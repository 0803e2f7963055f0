import JavaMachine.Proofs.Execution.Charted
import JavaMachine.Proofs.Machine.Guarded

/-! # The methods that are entered

What an action enters is told by a list of methods. The relation `Enters` follows the action as it is
put together: an action that ends in the same way whatever calls would do enters no method, two
actions one after the other enter what the first and then the second enters, and a call enters a
method and whatever that enters. Code is followed instruction by instruction (`RunEnters`), since an
instruction that calls a method with code enters it by a frame of its own.

The initializers among them are fresh if each is that of another class, untouched before and not
afterwards (`Fresh`). Fresh ones that come after fresh ones are fresh together. -/

namespace JavaMachine

/-! ## Entries -/

/-- A method that is entered, with the class that declares it. -/
structure Entry where
  owner : LinkedClass
  method : Method

/-- A method that initializes the class that declares it. -/
def Method.isInitializer (method : Method) : Bool :=
  method.name == MemberName.staticInitializer && method.descriptorText == "()V"

theorem Method.key_of_isInitializer {method : Method} (initializes : method.isInitializer = true) :
    method.key = initializerKey := by
  obtain ⟨named, described⟩ := Bool.and_eq_true_iff.mp initializes
  rw [Method.key, eq_of_beq named, eq_of_beq described, initializerKey]

namespace Entry

/-- The name of the class whose static initializer is entered. -/
def initialized? (entry : Entry) : Option String :=
  if entry.method.isInitializer then some entry.owner.name else none

/-- The names of the classes whose static initializers are entered, in this order. -/
def initialized (entries : List Entry) : List String :=
  entries.filterMap initialized?

section Initialized

variable {entry : Entry} {first second entries : List Entry}

theorem exists_of_mem_initialized {name : String} (member : name ∈ initialized entries) :
    ∃ entry ∈ entries, entry.owner.name = name := by
  obtain ⟨entry, among, named⟩ := List.mem_filterMap.mp member
  refine ⟨entry, among, ?_⟩
  unfold initialized? at named
  split at named
  · exact Option.some.inj named
  · cases named

theorem initialized_append :
    initialized (first ++ second) = initialized first ++ initialized second :=
  List.filterMap_append

theorem initialized_plain (plain : entry.method.isInitializer = false) :
    initialized [entry] = [] := by
  simp only [initialized, initialized?, plain, List.filterMap_cons, List.filterMap_nil,
    Bool.false_eq_true, if_false]

theorem initialized_initializer (initializes : entry.method.isInitializer = true) :
    initialized [entry] = [entry.owner.name] := by
  simp only [initialized, initialized?, initializes, List.filterMap_cons, List.filterMap_nil, if_true]

end Initialized

end Entry

/-- What an instruction enters by a frame of its own. -/
def Chain.entered (before after : Chain) : List Entry :=
  if before.callers.length < after.callers.length then [⟨after.frame.owner, after.frame.method⟩]
  else []

/-! ## What is entered -/

open Exec

mutual

/-- The methods that are entered while an action is performed from a machine, in this order. -/
inductive Enters (setup : Setup) :
    (fuel : Nat) → {α : Type} → Exec α → Machine → List Entry → Prop where
  /-- It makes no difference to the action what calls would do. -/
  | callFree {fuel : Nat} {α : Type} {action : Exec α} {machine : Machine}
      (same : ∀ invoke, action (setup.withInvoker invoke) machine =
        action (setup.services fuel) machine) : Enters setup fuel action machine []
  | followed {fuel : Nat} {α β : Type} {action : Exec α} {next : α → Exec β}
      {handle : Interruption → Exec β} {machine : Machine} {entries later : List Entry}
      (first : Enters setup fuel action machine entries)
      (rest : Enters setup fuel (sequel next handle (action (setup.services fuel) machine))
        (endState (action (setup.services fuel) machine)) later) :
      Enters setup fuel (followed action next handle) machine (entries ++ later)
  /-- No more calls are made. -/
  | exhausted {owner : LinkedClass} {index : Nat} {arguments : List Value} {machine : Machine} :
      Enters setup 0 (invoke owner index arguments) machine []
  /-- It makes no difference to the call what native methods and code would do. -/
  | refused {fuel : Nat} {owner : LinkedClass} {index : Nat} {arguments : List Value}
      {machine : Machine}
      (same : ∀ natives run other, Execution.invoke natives run owner index arguments
        (setup.withInvoker other) machine =
          invoke owner index arguments (setup.services (fuel + 1)) machine) :
      Enters setup (fuel + 1) (invoke owner index arguments) machine []
  | native {fuel : Nat} {owner : LinkedClass} {index : Nat} {arguments : List Value}
      {machine : Machine} {method : Method} {entries : List Entry}
      (present : owner.method? index = some method) (concrete : method.isAbstract = false)
      (isNative : method.isNative = true)
      (inside : Enters setup fuel (Execution.runNative setup.natives owner method arguments) machine
        entries) :
      Enters setup (fuel + 1) (invoke owner index arguments) machine (⟨owner, method⟩ :: entries)
  | code {fuel : Nat} {owner : LinkedClass} {index : Nat} {arguments : List Value}
      {machine ready : Machine} {method : Method} {frame : Frame} {entries : List Entry}
      (present : owner.method? index = some method) (hasBody : method.isBodiless = false)
      (entered : Frame.enter owner index arguments = .ok frame)
      (counted : Execution.enter (setup.services fuel) machine = .ok () ready)
      (inside : RunEnters setup fuel fuel ⟨frame, []⟩ ready entries) :
      Enters setup (fuel + 1) (invoke owner index arguments) machine (⟨owner, method⟩ :: entries)

/-- The methods that are entered while a chain goes on for at most so many instructions. -/
inductive RunEnters (setup : Setup) :
    (fuel steps : Nat) → Chain → Machine → List Entry → Prop where
  | exhausted {fuel : Nat} {chain : Chain} {machine : Machine} :
      RunEnters setup fuel 0 chain machine []
  | running {fuel steps : Nat} {chain next : Chain} {machine after : Machine}
      {entries later : List Entry} (inside : Enters setup fuel (Execution.advance chain) machine entries)
      (advanced : Execution.advance chain (setup.services fuel) machine = .ok (.running next) after)
      (rest : RunEnters setup fuel steps next after later) :
      RunEnters setup fuel (steps + 1) chain machine (entries ++ (chain.entered next ++ later))
  | ended {fuel steps : Nat} {chain : Chain} {machine : Machine} {entries : List Entry}
      (inside : Enters setup fuel (Execution.advance chain) machine entries)
      (ends : ∀ next after,
        Execution.advance chain (setup.services fuel) machine ≠ .ok (.running next) after) :
      RunEnters setup fuel (steps + 1) chain machine entries

end

/-! ## Fresh initializers -/

/-- Each of the initializers that are entered is that of a class of its own, which is untouched in the
phases before and not in those after; and a class that is touched stays so. -/
structure Fresh (before after : Phases) (entries : List Entry) : Prop where
  once : (Entry.initialized entries).Nodup
  untouched (name : String) (member : name ∈ Entry.initialized entries) :
    before name = .untouched
  begun (name : String) (member : name ∈ Entry.initialized entries) : after name ≠ .untouched
  lasting (name : String) (touched : before name ≠ .untouched) : after name ≠ .untouched

namespace Fresh

variable {before between after : Phases} {first second entries : List Entry} {entry : Entry}

theorem nil (lasting : ∀ name, before name ≠ .untouched → after name ≠ .untouched) :
    Fresh before after [] where
  once := List.nodup_nil
  untouched name member := by cases (member : name ∈ [])
  begun name member := by cases (member : name ∈ [])
  lasting := lasting

theorem append (former : Fresh before between first) (latter : Fresh between after second) :
    Fresh before after (first ++ second) where
  once := by
    rw [Entry.initialized_append]
    refine former.once.append latter.once fun name inFirst inSecond => ?_
    exact former.begun name inFirst (latter.untouched name inSecond)
  untouched name member := by
    rw [Entry.initialized_append] at member
    rcases List.mem_append.mp member with member | member
    · exact former.untouched name member
    · by_contra touched
      exact former.lasting name touched (latter.untouched name member)
  begun name member := by
    rw [Entry.initialized_append] at member
    rcases List.mem_append.mp member with member | member
    · exact latter.lasting name (former.begun name member)
    · exact latter.begun name member
  lasting name touched := latter.lasting name (former.lasting name touched)

/-- Methods that initialize no class make no difference. -/
theorem of_plain (plain : Entry.initialized first = []) (fresh : Fresh before after second) :
    Fresh before after (first ++ second) := by
  have same : Entry.initialized (first ++ second) = Entry.initialized second := by
    rw [Entry.initialized_append, plain, List.nil_append]
  exact ⟨same ▸ fresh.once, fun name member => fresh.untouched name (same ▸ member),
    fun name member => fresh.begun name (same ▸ member), fresh.lasting⟩

theorem cons (plain : entry.method.isInitializer = false) (fresh : Fresh before after entries) :
    Fresh before after (entry :: entries) :=
  of_plain (Entry.initialized_plain plain) fresh

/-- What happens while an untouched class is being initialized, its initializer included. -/
theorem within {c : LinkedClass} {phase : InitPhase} (untouched : before c.name = .untouched)
    (own : ∀ name ∈ Entry.initialized second, name = c.name) (single : second.length ≤ 1)
    (settled : phase ≠ .untouched)
    (fresh : Fresh (Function.update before c.name .running) after (first ++ entries)) :
    Fresh before (Function.update after c.name phase) (first ++ (second ++ entries)) := by
  have running : Function.update before c.name .running c.name = .running := Function.update_self ..
  have others (name : String) (member : name ∈ Entry.initialized (first ++ entries)) :
      name ≠ c.name := by
    rintro rfl
    have untouched := fresh.untouched _ member
    rw [running] at untouched
    cases untouched
  have either (name : String)
      (member : name ∈ Entry.initialized (first ++ (second ++ entries))) :
      name = c.name ∨ name ∈ Entry.initialized (first ++ entries) := by
    simp only [Entry.initialized_append, List.mem_append] at member ⊢
    rcases member with member | member | member
    · exact .inr (.inl member)
    · exact .inl (own name member)
    · exact .inr (.inr member)
  refine ⟨?_, fun name member => ?_, fun name member => ?_, fun name touched => ?_⟩
  · have once := fresh.once
    rw [Entry.initialized_append] at once others
    rw [Entry.initialized_append, Entry.initialized_append]
    have brief : (Entry.initialized second).Nodup := by
      have short := Nat.le_trans (List.length_filterMap_le Entry.initialized? second) single
      rw [List.nodup_iff_count_le_one]
      exact fun name => Nat.le_trans List.count_le_length short
    rw [List.nodup_append'] at once ⊢
    obtain ⟨firstOnce, restOnce, apart⟩ := once
    refine ⟨firstOnce, ?_, fun name inFirst inRest => ?_⟩
    · refine brief.append restOnce fun name inOwn inRest => ?_
      exact others name (List.mem_append_right _ inRest) (own name inOwn)
    · rcases List.mem_append.mp inRest with inOwn | inRest
      · exact others name (List.mem_append_left _ inFirst) (own name inOwn)
      · exact apart inFirst inRest
  · rcases either name member with rfl | member
    · exact untouched
    · have before := fresh.untouched name member
      rwa [Function.update_of_ne (others name member)] at before
  · rcases either name member with rfl | member
    · rwa [Function.update_self]
    · rw [Function.update_of_ne (others name member)]
      exact fresh.begun name member
  · by_cases same : name = c.name
    · rw [same, Function.update_self]
      exact settled
    · rw [Function.update_of_ne same]
      refine fresh.lasting name ?_
      rwa [Function.update_of_ne same]

end Fresh

/-! ## Operations without calls -/

/-- An operation to which it makes no difference what calls would do. -/
def CallFree {σ α : Type} (setup : Setup) (operation : Operation σ α) : Prop :=
  ∀ first second state,
    operation (setup.withInvoker first) state = operation (setup.withInvoker second) state

section CallFree

variable {setup : Setup} {σ α β : Type}

theorem callFree_pure (value : α) : CallFree setup (pure value : Operation σ α) :=
  fun _ _ _ => rfl

theorem callFree_throw (interruption : Interruption) :
    CallFree setup (throw interruption : Operation σ α) :=
  fun _ _ _ => rfl

theorem CallFree.bind {operation : Operation σ α} {next : α → Operation σ β}
    (first : CallFree setup operation) (rest : ∀ value, CallFree setup (next value)) :
    CallFree setup (operation >>= next) := by
  intro one other state
  simp only [Bind.bind, ReaderT.bind, EStateM.bind, first one other]
  cases operation (setup.withInvoker other) state with
  | ok value after => exact rest value one other after
  | error interruption after => rfl

theorem callFree_of_inert [MachineState σ] {operation : Operation σ α} (inert : Inert operation) :
    CallFree setup operation :=
  fun first second state => (inert.callFree (setup.withInvoker first) second state).symm

end CallFree

namespace Exec

variable {setup : Setup}

theorem callFree_classState (c : LinkedClass) : CallFree setup (classState c) :=
  fun _ _ _ => rfl

theorem callFree_setStatic (c : LinkedClass) (slot : Nat) (value : Value) :
    CallFree setup (setStatic c slot value) :=
  fun _ _ _ => by rw [setStatic_eq, setStatic_eq]

theorem callFree_newString (text : String) : CallFree setup (newString text) :=
  fun _ _ _ => rfl

theorem callFree_get : CallFree setup (get : Exec Machine) :=
  fun _ _ _ => rfl

theorem callFree_intern (text : String) : CallFree setup (intern text) := by
  refine callFree_get.bind fun machine => ?_
  split
  · exact callFree_pure _
  · refine (callFree_newString text).bind fun ref => ?_
    have noted : CallFree setup (modify fun machine : Machine =>
        { machine with interned := (text, ref) :: machine.interned } : Exec Unit) := fun _ _ _ => rfl
    exact noted.bind fun _ => callFree_pure ref

theorem callFree_constantValue (constant : FieldConstant) : CallFree setup (constantValue constant) := by
  cases constant with
  | string text => exact (callFree_intern text).bind fun _ => callFree_pure _
  | int | long | float | double => exact callFree_pure _

theorem callFree_assignConstants (c : LinkedClass) (fields : List Field) :
    CallFree setup (assignConstants c fields) := by
  induction fields with
  | nil => exact callFree_pure _
  | cons field rest ih =>
    rw [assignConstants]
    split
    · exact (callFree_constantValue _).bind fun value =>
        (callFree_setStatic c field.slot value).bind fun _ => ih
    · exact ih

theorem callFree_allocateZeros (c : LinkedClass) (length : Nat) :
    CallFree setup (allocateZeros c length) := by
  unfold allocateZeros
  split
  · exact callFree_throw _
  · exact fun _ _ _ => rfl

theorem callFree_allocateElements (c : LinkedClass) (elements : Array Value) :
    CallFree setup (allocateElements c elements) :=
  callFree_of_inert (inert_allocateElements c elements)

theorem callFree_object (ref : Ref) : CallFree setup (object ref) :=
  fun _ _ _ => rfl

theorem callFree_putField (ref : Ref) (slot : Nat) (value : Value) :
    CallFree setup (putField ref slot value) := by
  refine callFree_get.bind fun machine => ?_
  split
  · exact fun _ _ _ => rfl
  · exact (callFree_object ref).bind fun _ => callFree_throw _

theorem callFree_ofExcept {α : Type} (result : Except Error α) : CallFree setup (ofExcept result) := by
  cases result with
  | ok value => exact callFree_pure value
  | error error => exact callFree_throw _

end Exec

namespace Step

variable {setup : Setup} {α : Type}

theorem callFree_onMachine {action : Exec α} (callFree : CallFree setup action) :
    CallFree setup (onMachine action) := by
  intro first second state
  rw [onMachine, onMachine, callFree first second]

theorem callFree_constantAt (index : UInt16) : CallFree setup (constantAt index) := by
  have reads : CallFree setup frame := fun _ _ _ => rfl
  refine reads.bind fun frame => ?_
  dsimp only
  split
  · exact callFree_pure _
  · exact callFree_onMachine (callFree_throw _)

theorem callFree_linkAt (index : UInt16) : CallFree setup (linkAt index) :=
  fun _ _ _ => rfl

theorem callFree_setLink (index : UInt16) (link : Linkage) : CallFree setup (setLink index link) :=
  fun _ _ _ => rfl

theorem callFree_classNamed (index : UInt16) (name : String) :
    CallFree setup (classNamed index name) := by
  have loads : CallFree setup (onMachine (Exec.load name)) := callFree_onMachine fun _ _ _ => rfl
  refine (callFree_linkAt index).bind fun link => ?_
  split
  · exact callFree_pure _
  · exact loads.bind fun c => (callFree_setLink index _).bind fun _ => callFree_pure c

theorem callFree_linked (index : UInt16) (name : String) (find : LinkedClass → Except Error Linkage) :
    CallFree setup (linked index name find) := by
  have finds : CallFree setup (do
      let c ← classNamed index name
      let link ← Exec.ofExcept (find c)
      setLink index link
      return link : Step Linkage) :=
    (callFree_classNamed index name).bind fun c =>
      (callFree_onMachine (Exec.callFree_ofExcept (find c))).bind fun link =>
        (callFree_setLink index link).bind fun _ => callFree_pure link
  refine (callFree_linkAt index).bind fun link => ?_
  split
  · exact finds
  · exact finds
  · exact callFree_pure _

end Step

/-- Everything that is put together from the simplest actions is charted where no calls are made. -/
theorem charted_zero {setup : Setup} :
    Catching (fun _ action => Charted setup 0 action)
      (fun _ step => ∀ frame cursor, Charted setup 0 (step.detached frame cursor)) :=
  charted_catching fun _ _ _ _ _ => ⟨[], .exhausted⟩

theorem endState_bind_pure {α β : Type} {action : Exec α} {value : β} {services : Services}
    {machine : Machine} :
    endState ((action >>= fun _ => pure value) services machine) =
      endState (action services machine) := by
  simp only [Bind.bind, ReaderT.bind, EStateM.bind]
  cases action services machine <;> rfl

/-! ## Parts of actions -/

section Enters

variable {setup : Setup} {fuel : Nat} {α β : Type} {machine after : Machine} {entries later : List Entry}
  {action : Exec α} {next : α → Exec β}

theorem Enters.of_callFree (callFree : CallFree setup action) : Enters setup fuel action machine [] := by
  obtain ⟨invoke, services⟩ := setup.services_eq_withInvoker fuel
  refine .callFree fun other => ?_
  rw [services]
  exact callFree other invoke machine

/-- What makes no calls leaves no touched class untouched. -/
theorem Fresh.of_callFree (callFree : CallFree setup action) (charted : Charted setup 0 action) :
    Fresh machine.phases (endState (action (setup.services fuel) machine)).phases [] := by
  obtain ⟨invoke, services⟩ := setup.services_eq_withInvoker fuel
  obtain ⟨none, exhausted⟩ := setup.services_eq_withInvoker 0
  obtain ⟨events, course⟩ := charted [] machine
  refine .nil fun name touched untouched => ?_
  obtain ⟨taken, steps⟩ := course.settled name
  rw [exhausted, callFree none invoke, ← services, untouched] at steps
  generalize machine.phases name = phase at steps touched
  cases steps with
  | none => exact touched rfl
  | both ended => rcases ended with ended | ended <;> cases ended

theorem Enters.bind_of_ok {value : α} (first : Enters setup fuel action machine entries)
    (ended : action (setup.services fuel) machine = .ok value after)
    (rest : Enters setup fuel (next value) after later) :
    Enters setup fuel (action >>= next) machine (entries ++ later) := by
  rw [bind_eq_followed]
  refine .followed first ?_
  rw [ended]
  exact rest

theorem Enters.bind_of_error {interruption : Interruption}
    (first : Enters setup fuel action machine entries)
    (ended : action (setup.services fuel) machine = .error interruption after) :
    Enters setup fuel (action >>= next) machine entries := by
  have stops : Enters setup fuel
      (sequel next MonadExcept.throw (action (setup.services fuel) machine))
      (endState (action (setup.services fuel) machine)) [] := by
    rw [ended]
    exact .of_callFree (callFree_throw interruption)
  rw [bind_eq_followed, ← List.append_nil entries]
  exact .followed first stops

/-- What follows an action enters no methods of its own if it needs no calls. -/
theorem Enters.followed_callFree {handle : Interruption → Exec β}
    (first : Enters setup fuel action machine entries) (onValue : ∀ value, CallFree setup (next value))
    (onInterruption : ∀ interruption, CallFree setup (handle interruption)) :
    Enters setup fuel (Exec.followed action next handle) machine entries := by
  have rest : Enters setup fuel (sequel next handle (action (setup.services fuel) machine))
      (endState (action (setup.services fuel) machine)) [] := by
    cases action (setup.services fuel) machine with
    | ok value after => exact .of_callFree (onValue value)
    | error interruption after => exact .of_callFree (onInterruption interruption)
  rw [← List.append_nil entries]
  exact .followed first rest

/-- The initialization of an untouched class enters what is entered while the class is running. -/
theorem Enters.initializing {c : LinkedClass} {action : Exec Unit}
    (untouched : machine.phases c.name = .untouched)
    (inside : Enters setup fuel action (withPhase c .running machine) entries) :
    Enters setup fuel (initializing c action) machine entries := by
  have noted (phase : InitPhase) : CallFree setup (setPhase c phase) := fun _ _ _ => rfl
  have attempted : Enters setup fuel (tryCatch action fun interruption => do
      setPhase c .failed
      throw interruption) (withPhase c .running machine) entries := by
    rw [tryCatch_eq_followed]
    exact inside.followed_callFree callFree_pure fun interruption =>
      (noted .failed).bind fun _ => callFree_throw interruption
  have concludes := attempted.followed_callFree (fun _ => noted .done) callFree_throw
  rw [← bind_eq_followed] at concludes
  rw [← phase_stateIn] at untouched
  have begins : Enters setup fuel (setPhase c .running) machine [] := .of_callFree (noted .running)
  have reads : Enters setup fuel (classState c) machine [] := .of_callFree fun _ _ _ => rfl
  refine reads.bind_of_ok classState_eq ?_
  rw [untouched]
  exact begins.bind_of_ok setPhase_eq concludes

end Enters

/-! ## Traced actions -/

/-- It can be told what an action enters from a machine, and that the initializers are fresh. -/
def Traced (setup : Setup) (fuel : Nat) {α : Type} (action : Exec α) (machine : Machine) : Prop :=
  ∃ entries, Enters setup fuel action machine entries ∧
    Fresh machine.phases (endState (action (setup.services fuel) machine)).phases entries

namespace Traced

variable {setup : Setup} {fuel : Nat} {α β : Type} {machine : Machine}

theorem of_callFree {action : Exec α} (callFree : CallFree setup action)
    (charted : Charted setup 0 action) : Traced setup fuel action machine :=
  ⟨[], .of_callFree callFree, .of_callFree callFree charted⟩

theorem followed {action : Exec α} {next : α → Exec β} {handle : Interruption → Exec β}
    (first : Traced setup fuel action machine)
    (onValue : ∀ value after, action (setup.services fuel) machine = .ok value after →
      Traced setup fuel (next value) after)
    (onInterruption : ∀ interruption after,
      action (setup.services fuel) machine = .error interruption after →
        Traced setup fuel (handle interruption) after) :
    Traced setup fuel (Exec.followed action next handle) machine := by
  have rest : Traced setup fuel (sequel next handle (action (setup.services fuel) machine))
      (endState (action (setup.services fuel) machine)) := by
    cases ended : action (setup.services fuel) machine with
    | ok value after => exact onValue value after ended
    | error interruption after => exact onInterruption interruption after ended
  obtain ⟨entries, enters, fresh⟩ := first
  obtain ⟨later, entersLater, freshLater⟩ := rest
  exact ⟨entries ++ later, .followed enters entersLater, fresh.append freshLater⟩

theorem pure (value : α) : Traced setup fuel (Pure.pure value : Exec α) machine :=
  of_callFree (callFree_pure value) (charted_pure value)

theorem throw (interruption : Interruption) :
    Traced setup fuel (MonadExcept.throw interruption : Exec α) machine :=
  of_callFree (callFree_throw interruption) (charted_throw interruption)

theorem bind {action : Exec α} {next : α → Exec β} (first : Traced setup fuel action machine)
    (rest : ∀ value after, action (setup.services fuel) machine = .ok value after →
      Traced setup fuel (next value) after) : Traced setup fuel (action >>= next) machine := by
  rw [bind_eq_followed]
  exact first.followed rest fun interruption _ _ => throw interruption

theorem tryCatch {action : Exec α} {handle : Interruption → Exec α}
    (first : Traced setup fuel action machine)
    (rest : ∀ interruption after, action (setup.services fuel) machine = .error interruption after →
      Traced setup fuel (handle interruption) after) :
    Traced setup fuel (MonadExcept.tryCatch action handle) machine := by
  rw [tryCatch_eq_followed]
  exact first.followed (fun value _ _ => pure value) rest

end Traced

end JavaMachine
