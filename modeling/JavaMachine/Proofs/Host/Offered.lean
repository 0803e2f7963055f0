import JavaMachine.Proofs.Host.Conversion

/-! # What hosts are offered

A host works on a class that it names, or on an object as an instance of such a class: it has a
method called or an instance made, and reads and changes fields. Its native methods may also make
strings, write, throw, have classes initialized and call methods by their descriptors. What a host
does with the results is up to it, and it may handle whatever interrupts an action (`Exec.Offered`).
All of this keeps machines sound (`Exec.Offered.follows`), since the methods that a host can have
called are declared by the class and its ancestors, and its values are converted once they are
accepted. -/

namespace JavaMachine

open Loader (Defines)

/-! ## Offered actions -/

/-- A class by its name, or an object as an instance of it. -/
def Target.named (className : String) (receiver : Option Ref) : Exec Target := do
  let c ← Session.load className
  match receiver with
  | none => return .ofClass c
  | some ref => ofInstance c ref

/-- What hosts can do with a machine, in the order of their choice. -/
inductive Exec.Offered : {α : Type} → Exec α → Prop where
  | pure {α : Type} (value : α) : Offered (pure value)
  | throw {α : Type} (interruption : Interruption) : Offered (throw interruption : Exec α)
  | bind {α β : Type} {action : Exec α} {next : α → Exec β} (first : Offered action)
      (rest : ∀ value, Offered (next value)) : Offered (action >>= next)
  | tryCatch {α : Type} {action : Exec α} {handle : Interruption → Exec α}
      (first : Offered action) (rest : ∀ interruption, Offered (handle interruption)) :
      Offered (tryCatch action handle)
  | get : Offered (get : Exec Machine)
  | load (name : String) : Offered (Session.load name)
  | call (className : String) (receiver : Option Ref) (name : String)
      (arguments : List HostValue) :
      Offered (do (← Target.named className receiver).call name arguments)
  | callExactly (className : String) (receiver : Option Ref) (name descriptor : String)
      (arguments : List HostValue) :
      Offered (do (← Target.named className receiver).callExactly name descriptor arguments)
  | getField (className : String) (receiver : Option Ref) (name : String) :
      Offered (do (← Target.named className receiver).getField name)
  | setField (className : String) (receiver : Option Ref) (name : String) (value : HostValue) :
      Offered (do (← Target.named className receiver).setField name value)
  | construct (className : String) (arguments : List HostValue) :
      Offered (do (← Session.load className).construct arguments)
  | newString (text : String) : Offered (Exec.newString text)
  | intern (text : String) : Offered (Exec.intern text)
  | print (toErrors : Bool) (text : String) : Offered (Exec.print toErrors text)
  | throwNew {α : Type} (className : String) (detail : Option String) :
      Offered (Exec.throwNew className detail : Exec α)
  | initializing (className : String) :
      Offered (do Exec.ensureInitialized (← Session.load className))
  | invokeStatic (className name descriptor : String) (arguments : List Value) :
      Offered (Exec.invokeStatic className name descriptor arguments)
  | invokeVirtual (ref : Ref) (name descriptor : String) (arguments : List Value) :
      Offered (Exec.invokeVirtual ref name descriptor arguments)

/-! ## Methods by name -/

namespace LinkedClass

variable {sources : List ClassSource}

mutual

/-- What is added to a list of classes is defined. -/
theorem lineageFrom_defined : ∀ (c : LinkedClass) (visited : List LinkedClass), Defines sources c →
    (∀ d ∈ visited, Defines sources d) → ∀ d ∈ c.lineageFrom visited, Defines sources d
  | .mk info superclass interfaces element table, visited, defined, known => by
    rw [lineageFrom]
    split
    · exact known
    refine ofInterfaces_defined interfaces _
      (fun above implemented => defined.linksTo_defined (.interface implemented)) ?_
    refine ofSuperclass_defined superclass _
      (fun above extended => defined.linksTo_defined (.superclass extended)) fun d member => ?_
    rcases List.mem_append.mp member with member | member
    · exact known d member
    · rw [List.mem_singleton.mp member]
      exact defined

theorem ofSuperclass_defined : ∀ (superclass : Option LinkedClass) (visited : List LinkedClass),
    (∀ above, superclass = some above → Defines sources above) →
    (∀ d ∈ visited, Defines sources d) →
    ∀ d ∈ lineageFrom.ofSuperclass visited superclass, Defines sources d
  | none, _, _, known => known
  | some above, visited, defined, known =>
    lineageFrom_defined above visited (defined above rfl) known

theorem ofInterfaces_defined : ∀ (interfaces : List LinkedClass) (visited : List LinkedClass),
    (∀ above ∈ interfaces, Defines sources above) → (∀ d ∈ visited, Defines sources d) →
    ∀ d ∈ lineageFrom.ofInterfaces visited interfaces, Defines sources d
  | [], _, _, known => known
  | first :: rest, visited, defined, known =>
    ofInterfaces_defined rest _ (fun above member => defined above (List.mem_cons_of_mem _ member))
      (lineageFrom_defined first visited (defined first List.mem_cons_self) known)

end

/-- A class and everything it extends and implements is defined. -/
theorem lineage_defined {c : LinkedClass} (defined : Defines sources c) :
    ∀ d ∈ c.lineage, Defines sources d :=
  lineageFrom_defined c [] defined fun _ none => by cases none

end LinkedClass

namespace Candidate

variable {sources : List ClassSource} {candidate : Candidate} {c : LinkedClass}

/-- A method that may be called is declared by a class that the sources define. -/
structure Declared (sources : List ClassSource) (candidate : Candidate) : Prop where
  defined : Defines sources candidate.owner
  present : candidate.owner.method? candidate.index = some candidate.method

theorem Declared.known (declared : candidate.Declared sources) :
    (Knowledge.provided sources).Method candidate.owner candidate.index :=
  ⟨declared.defined, (Array.getElem?_eq_some_iff.mp declared.present).1⟩

theorem owner_of_mem {test : Method → Bool} (member : candidate ∈ declaredIn c test) :
    candidate.owner = c := by
  obtain ⟨_, _, rfl⟩ := List.mem_map.mp member
  rfl

/-- A method that a class declares is found there by its index, and passes the test. -/
theorem present_of_mem {test : Method → Bool} (member : candidate ∈ declaredIn c test) :
    candidate.owner.method? candidate.index = some candidate.method ∧
      test candidate.method = true := by
  obtain ⟨⟨method, index⟩, numbered, rfl⟩ := List.mem_map.mp member
  obtain ⟨numbered, passes⟩ := List.mem_filter.mp numbered
  obtain ⟨within, same⟩ := List.mem_zipIdx' numbered
  refine ⟨?_, passes⟩
  change c.methods[index]? = some method
  rw [← Array.getElem?_toList, List.getElem?_eq_getElem within, ← same]

theorem declared_of_mem {test : Method → Bool} (defined : Defines sources c)
    (member : candidate ∈ declaredIn c test) : candidate.Declared sources where
  defined := owner_of_mem member ▸ defined
  present := (present_of_mem member).1

theorem mem_of_distinct {seen : List String} {candidates : List Candidate}
    (member : candidate ∈ distinct seen candidates) : candidate ∈ candidates := by
  induction candidates generalizing seen with
  | nil => exact member
  | cons first rest ih =>
    rw [distinct] at member
    split at member
    · exact List.mem_cons_of_mem _ (ih member)
    · rcases List.mem_cons.mp member with rfl | member
      · exact List.mem_cons_self
      · exact List.mem_cons_of_mem _ (ih member)

/-- **The methods that can be called by a name are declared.** -/
theorem declared_of_all {name : String} {static : Bool} (defined : Defines sources c)
    (member : candidate ∈ all c name static) : candidate.Declared sources := by
  obtain ⟨d, inherited, declared⟩ := List.mem_flatMap.mp (mem_of_distinct member)
  exact declared_of_mem (LinkedClass.lineage_defined defined d inherited) declared

end Candidate

/-! ## Arguments -/

namespace Candidate

open Exec

variable {setup : Setup} {invoke : Invoker} {machine : Machine}

/-- Values that may be passed for parameters. -/
abbrev Passable (sources : List ClassSource) (heap : Heap) (types : List FieldType)
    (values : List HostValue) : Prop :=
  List.Forall₂ (fun type value => value.Accepted sources heap type) types values

theorem Passable.grows {sources : List ClassSource} {before after : Heap} {types : List FieldType}
    {values : List HostValue} (passable : Passable sources before types values)
    (grows : before.Grows after) : Passable sources after types values :=
  passable.imp fun _ _ accepted => accepted.grows grows

theorem acceptsEach_yields (sound : machine.Sound setup.sources) (types : List FieldType)
    (values : List HostValue) (same : types.length = values.length) :
    Yields setup invoke machine (acceptsEach types values) fun accepted after =>
      accepted = true → Passable setup.sources after.heap types values := by
  induction types generalizing machine values with
  | nil =>
    obtain rfl := List.eq_nil_of_length_eq_zero same.symm
    exact yields_pure sound fun _ => .nil
  | cons type types ih =>
    cases values with
    | nil => cases same
    | cons value values =>
      refine (HostValue.acceptedBy_yields sound type value).bind fun accepted _ prepared isFirst => ?_
      split
      · next taken =>
        refine (ih prepared.sound values (Nat.succ.inj same)).weaken
          fun all after further areRest allTaken => ?_
        exact .cons ((isFirst taken).grows further.grows) (areRest allTaken)
      · exact yields_pure prepared.sound fun accepted => by cases accepted

theorem takes_yields (sound : machine.Sound setup.sources) (candidate : Candidate)
    (arguments : List HostValue) :
    Yields setup invoke machine (candidate.takes arguments) fun taken after =>
      taken = true →
        Passable setup.sources after.heap candidate.method.descriptor.parameters arguments := by
  unfold takes
  dsimp only
  split
  · next same => exact acceptsEach_yields sound _ _ same
  · exact yields_pure sound fun taken => by cases taken

theorem firstTaking_yields (sound : machine.Sound setup.sources) (arguments : List HostValue)
    (candidates : List Candidate) :
    Yields setup invoke machine (firstTaking arguments candidates) fun found after =>
      ∀ candidate, found = some candidate → candidate ∈ candidates ∧
        Passable setup.sources after.heap candidate.method.descriptor.parameters arguments := by
  induction candidates generalizing machine with
  | nil => exact yields_pure sound fun _ none => by cases none
  | cons first rest ih =>
    refine (takes_yields sound first arguments).bind fun taken _ prepared passable => ?_
    split
    · next isTaken =>
      refine yields_pure prepared.sound fun candidate found => ?_
      cases found
      exact ⟨List.mem_cons_self, passable isTaken⟩
    · exact (ih prepared.sound).weaken fun found after _ given candidate isFound =>
        ⟨List.mem_cons_of_mem _ (given candidate isFound).1, (given candidate isFound).2⟩

/-- What is selected is one of the candidates, and may be passed the arguments. -/
theorem select_yields (sound : machine.Sound setup.sources) (c : LinkedClass) (name : String)
    (candidates : List Candidate) (arguments : List HostValue) :
    Yields setup invoke machine (select c name candidates arguments) fun candidate after =>
      candidate ∈ candidates ∧
        Passable setup.sources after.heap candidate.method.descriptor.parameters arguments := by
  unfold select
  split
  · have stops : Yields setup invoke machine
        (Exec.fail (.noSuchMethod c.name name) : Exec PUnit) fun _ _ => False :=
      yields_throw sound _
    exact stops.bind fun _ _ _ => False.elim
  · refine (firstTaking_yields sound arguments candidates).bind fun found _ prepared given => ?_
    split
    · exact yields_pure prepared.sound (given _ rfl)
    · exact yields_throw prepared.sound _

theorem convertEach_yields (grounded : setup.Grounded) (sound : machine.Sound setup.sources)
    {types : List FieldType} {values : List HostValue}
    (passable : Passable setup.sources machine.heap types values) :
    Yields setup invoke machine (convertEach types values) fun _ _ => True := by
  induction types generalizing machine values with
  | nil =>
    cases passable
    exact yields_pure sound trivial
  | cons type types ih =>
    cases passable with
    | cons accepted passable =>
      refine (HostValue.toValue_yields grounded sound accepted).bind fun first _ prepared _ => ?_
      refine (ih prepared.sound (Passable.grows passable prepared.grows)).bind fun rest _ further _ => ?_
      exact yields_pure further.sound trivial

end Candidate

/-! ## Sound machines -/

namespace Regime

variable {setup : Setup} {start : Heap} {α : Type}

/-- What an action prepares it prepares within the regime. -/
theorem leads_of_yields {action : Exec α} {begins : Machine → Prop} {ends : α → Machine → Prop}
    (inert : Inert action)
    (yields : ∀ invoke machine, machine.Sound setup.sources → begins machine →
      Exec.Yields setup invoke machine action ends) :
    (sound setup start).Leads setup begins action ends := by
  intro calls first second _ machine good depth holds
  obtain ⟨prepared, given⟩ := yields first machine good.1 holds
  refine ⟨inert.callFree (setup.withInvoker first) second machine, ?_, given⟩
  exact ⟨⟨prepared.sound, good.2.trans prepared.grows⟩, prepared.depth.trans depth, prepared.grows,
    fun _ _ _ => trivial⟩

theorem sound_looking :
    Looking (fun _ action => (sound setup start).Follows setup anything action) where
  pure _ := follows_pure trivial
  bind first rest := first.bind fun value _ => rest value
  throw := follows_throw
  get := follows_get

variable (setup start) in
theorem lasts_passable (types : List FieldType) (values : List HostValue) :
    (sound setup start).Lasts fun machine =>
      Candidate.Passable setup.sources machine.heap types values :=
  fun _ _ _ grows passable => Candidate.Passable.grows passable grows

theorem leads_select (c : LinkedClass) (name : String) (candidates : List Candidate)
    (arguments : List HostValue) :
    (sound setup start).Leads setup (fun _ => True) (Candidate.select c name candidates arguments)
      fun candidate machine => candidate ∈ candidates ∧ Candidate.Passable setup.sources machine.heap
        candidate.method.descriptor.parameters arguments :=
  leads_of_yields (inert_preparatory.select _ _ _ _) fun _ _ sound _ =>
    Candidate.select_yields sound c name candidates arguments

/-- A class that is named is defined, and so is that of an object as an instance of it. -/
theorem sound_named (className : String) (receiver : Option Ref) :
    (sound setup start).Follows setup (fun target : Target => Defines setup.sources target.type)
      (Target.named className receiver) := by
  refine (sound_load _).bind fun c loaded => ?_
  cases receiver with
  | none => exact follows_pure loaded.1
  | some ref =>
    refine (sound_object ref).bind fun object _ => ?_
    split
    · exact follows_pure loaded.1
    · exact follows_throw _

section Grounded

variable (grounded : setup.Grounded)

include grounded

theorem leads_convert (candidate : Candidate) (arguments : List HostValue) :
    (sound setup start).Leads setup
      (fun machine => Candidate.Passable setup.sources machine.heap
        candidate.method.descriptor.parameters arguments)
      (candidate.convert arguments) fun _ _ => True :=
  leads_of_yields (inert_preparatory.convertEach _ _) fun _ _ sound passable =>
    Candidate.convertEach_yields grounded sound passable

/-- A declared method is called with arguments that may be passed. -/
theorem leads_callCandidate {candidate : Candidate} (declared : candidate.Declared setup.sources)
    (receiver : Option Ref) (arguments : List HostValue) :
    (sound setup start).Leads setup
      (fun machine => Candidate.Passable setup.sources machine.heap
        candidate.method.descriptor.parameters arguments)
      (candidate.call receiver arguments) fun _ _ => True := by
  have informed := sound_informed grounded start grounded.strings
  refine Leads.bind (leads_convert grounded candidate arguments) fun converted => ?_
  have given (result : Option Value) :
      (sound setup start).Follows setup anything (candidate.giveResult result) :=
    sound_looking.giveResult candidate result
  refine Follows.done ?_
  cases receiver with
  | none =>
    refine (informed.exec_ensureInitialized declared.defined).bind fun _ _ => ?_
    exact (informed.exec_invoke declared.known _).bind fun result _ => given result
  | some ref =>
    have dispatched : (sound setup start).Follows setup
        (fun found : LinkedClass × Nat => (Knowledge.provided setup.sources).Method found.1 found.2)
        (candidate.dispatch ref) := by
      unfold Candidate.dispatch
      split
      · exact follows_pure declared.known
      · refine (sound_object ref).bind fun object isKnown => ?_
        dsimp only
        split
        · next selected => exact follows_pure ((Knowledge.provided _).found isKnown trivial selected)
        · exact follows_throw _
    refine dispatched.bind fun found isKnown => ?_
    exact (informed.exec_invoke isKnown _).bind fun result _ => given result

theorem sound_call {target : Target} (defined : Defines setup.sources target.type) (name : String)
    (arguments : List HostValue) :
    (sound setup start).Follows setup anything (target.call name arguments) := by
  refine Leads.follows (Leads.bind (leads_select _ _ _ _) fun candidate => ?_)
  refine leads_of_fact fun member => (leads_callCandidate grounded
    (Candidate.declared_of_all defined member) _ arguments).weaken (fun _ => id) fun _ _ => id

theorem sound_callExactly {target : Target} (defined : Defines setup.sources target.type)
    (name descriptor : String) (arguments : List HostValue) :
    (sound setup start).Follows setup anything (target.callExactly name descriptor arguments) := by
  unfold Target.callExactly
  split
  · exact follows_throw _
  · next candidate found =>
    have declared := Candidate.declared_of_all defined (List.mem_of_find?_eq_some found)
    have takes : (sound setup start).Leads setup (fun _ => True) (candidate.takes arguments) _ :=
      leads_of_yields (inert_preparatory.takes _ _) fun _ _ sound _ =>
        Candidate.takes_yields sound candidate arguments
    refine Leads.follows (Leads.bind takes fun taken => ?_)
    split
    · next isTaken =>
      exact (leads_callCandidate grounded declared _ arguments).weaken
        (fun _ passable => passable isTaken) fun _ _ _ => trivial
    · exact Leads.weaken (leads_throw _) (fun _ => id) fun _ _ => False.elim

/-- The place of a field: if it is static, then that of a field of the type. -/
def Located (setup : Setup) : Target.Place × FieldType → Prop
  | (.static owner slot, type) => (Knowledge.provided setup.sources).Static owner slot type
  | (.instance .., _) => True

theorem sound_place {target : Target} (defined : Defines setup.sources target.type)
    (name : String) :
    (sound setup start).Follows setup (Located setup) (target.place name) := by
  have informed := sound_informed grounded start grounded.strings
  unfold Target.place
  split
  · split
    · exact follows_throw _
    · next owner field found =>
      obtain ⟨ownerDefined, static⟩ := (Knowledge.provided _).static defined found
      exact (informed.exec_ensureInitialized ownerDefined).bind fun _ _ => follows_pure static
  · refine (sound_object _).bind fun object _ => ?_
    dsimp only
    split
    · exact follows_throw _
    · exact follows_pure trivial

theorem sound_getField {target : Target} (defined : Defines setup.sources target.type)
    (name : String) :
    (sound setup start).Follows setup anything (target.getField name) := by
  have informed := sound_informed grounded start grounded.strings
  refine (sound_place grounded defined name).bind fun found _ => ?_
  have read : (sound setup start).Follows setup anything found.1.read := by
    cases found.1 with
    | static owner slot => exact informed.exec_getStatic owner slot
    | «instance» ref slot => exact informed.exec_getField ref slot
  exact read.bind fun value _ => sound_looking.give _ value

/-- A field is changed to what its type may hold. -/
theorem sound_setField {target : Target} (defined : Defines setup.sources target.type)
    (name : String) (value : HostValue) :
    (sound setup start).Follows setup anything (target.setField name value) := by
  refine (sound_place grounded defined name).bind fun found located => ?_
  obtain ⟨place, type⟩ := found
  have accepts : (sound setup start).Leads setup (fun _ => True) (value.acceptedBy type) _ :=
    leads_of_yields (inert_preparatory.acceptedBy _ _) fun _ _ sound _ =>
      HostValue.acceptedBy_yields sound type value
  refine Leads.follows (Leads.bind accepts fun accepted => ?_)
  split
  · next isAccepted =>
    have converts : (sound setup start).Leads setup
        (fun machine => value.Accepted setup.sources machine.heap type) (value.toValue type) _ :=
      leads_of_yields (inert_preparatory.toValue _ _) fun _ _ sound accepted =>
        HostValue.toValue_yields grounded sound accepted
    refine Leads.bind (converts.weaken (fun _ given => given isAccepted) fun _ _ => id)
      fun converted => ?_
    have written (holds : type.Holds converted) : (sound setup start).Leads setup (fun _ => True)
        (place.write (Value.narrow type converted)) fun _ _ => True := by
      refine Follows.done ?_
      cases place with
      | static owner slot =>
        obtain ⟨ownerDefined, field, member, rfl, rfl⟩ := located
        exact sound_setStatic ownerDefined member (.inl (Value.holds_narrow holds.kind))
      | «instance» ref slot => exact sound_putField ref slot _
    exact (leads_of_fact written).weaken (fun _ passes => ⟨passes.holds, trivial⟩) fun _ _ => id
  · exact Leads.weaken (leads_throw _) (fun _ => id) fun _ _ => False.elim

theorem sound_construct {c : LinkedClass} (defined : Defines setup.sources c)
    (arguments : List HostValue) :
    (sound setup start).Follows setup anything (c.construct arguments) := by
  have informed := sound_informed grounded start grounded.strings
  unfold LinkedClass.construct
  refine informed.exec_check (follows_throw _) fun _ => ?_
  refine Leads.follows (Leads.bind (leads_select _ _ _ _) fun candidate => ?_)
  refine leads_of_fact fun member => ?_
  have declared := Candidate.declared_of_mem defined member
  have lasts := lasts_passable setup start candidate.method.descriptor.parameters arguments
  suffices goesOn : (sound setup start).Leads setup
      (fun machine : Machine => True ∧ Candidate.Passable setup.sources machine.heap
        candidate.method.descriptor.parameters arguments) _ fun _ _ => True from
    goesOn.weaken (fun _ passable => ⟨trivial, passable⟩) fun _ _ _ => trivial
  refine Within.bindLasting (informed.exec_ensureInitialized defined).anywhere lasts fun _ _ => ?_
  refine Within.bindLasting (informed.exec_instantiate defined).anywhere lasts fun ref _ => ?_
  refine Leads.bind ((leads_convert grounded candidate arguments).weaken (fun _ => And.right)
    fun _ _ => id) fun converted => ?_
  have calls := informed.exec_invoke declared.known
    (Value.toSlots (.reference (some ref) :: converted))
  rw [Candidate.owner_of_mem member] at calls
  exact Follows.done (calls.bind fun _ _ => follows_pure trivial)

end Grounded

end Regime

/-- **Whatever a host does with a sound machine, it stays sound.** -/
theorem Exec.Offered.follows {setup : Setup} (grounded : setup.Grounded) (start : Heap) {α : Type}
    {action : Exec α} (offered : action.Offered) :
    (Regime.sound setup start).Follows setup anything action := by
  have informed := Regime.sound_informed grounded start grounded.strings
  induction offered with
  | pure value => exact Regime.follows_pure trivial
  | throw interruption => exact Regime.follows_throw interruption
  | bind _ _ first rest => exact first.bind fun value _ => rest value
  | tryCatch _ _ first rest => exact first.tryCatch rest
  | get => exact Regime.follows_get
  | load name => exact (Regime.sound_load _).weaken fun _ _ => trivial
  | call className receiver name arguments =>
    exact (Regime.sound_named className receiver).bind fun _ defined =>
      Regime.sound_call grounded defined name arguments
  | callExactly className receiver name descriptor arguments =>
    exact (Regime.sound_named className receiver).bind fun _ defined =>
      Regime.sound_callExactly grounded defined name descriptor arguments
  | getField className receiver name =>
    exact (Regime.sound_named className receiver).bind fun _ defined =>
      Regime.sound_getField grounded defined name
  | setField className receiver name value =>
    exact (Regime.sound_named className receiver).bind fun _ defined =>
      Regime.sound_setField grounded defined name value
  | construct className arguments =>
    exact (Regime.sound_load _).bind fun _ loaded =>
      Regime.sound_construct grounded loaded.1 arguments
  | newString text => exact informed.exec_newString text
  | intern text => exact informed.exec_intern text
  | print toErrors text => exact informed.exec_print toErrors text
  | throwNew className detail => exact informed.exec_throwNew className detail
  | initializing className =>
    exact (Regime.sound_load _).bind fun _ loaded => informed.exec_ensureInitialized loaded.1
  | invokeStatic className name descriptor arguments =>
    exact informed.exec_invokeStatic className trivial arguments
  | invokeVirtual ref name descriptor arguments =>
    exact informed.exec_invokeVirtual ref trivial arguments

end JavaMachine
