import JavaMachine.Proofs.Class.Coherence
import JavaMachine.Proofs.Execution.Watched
import JavaMachine.Proofs.Machine.Sound
import JavaMachine.Proofs.Native.Informed

/-! # Machines stay sound

Whatever code does, a sound machine is sound afterwards, and no array has changed its class or its
length. Most actions leave arrays alone or make them with zeros. The others are the instructions
that store an element, the one that makes arrays of arrays, and the native method that copies
elements: they check what they store, which then fits for good. Static fields are changed by
instructions that check the kind of what they store and cut it to the type of the field, and by
initializations, which put the constants of the class into its fields as they are. -/

namespace JavaMachine

open Loader (Defines)
open MachineState (machine)

/-! ## Changes of a machine -/

/-- A machine that is sound, has lost nothing of the heap of a machine before it, and has as many
calls in progress. -/
structure Machine.Succeeds (sources : List ClassSource) (before after : Machine) : Prop where
  sound : after.Sound sources
  heap : before.heap.Grows after.heap
  depth : after.depth = before.depth

namespace Machine.Sound

variable {sources : List ClassSource} {machine : Machine}

theorem succeeds_heap (sound : machine.Sound sources) {heap : Heap} (new : heap.Sound sources)
    (grows : machine.heap.Grows heap) : machine.Succeeds sources { machine with heap } :=
  ⟨⟨sound.loaded, new, sound.classes, sound.links⟩, grows, rfl⟩

theorem succeeds_load {services : Services} (sound : machine.Sound services.sources)
    (name : String) :
    machine.Succeeds services.sources (endState (Exec.load name services machine)) ∧
      ∀ c after, Exec.load name services machine = .ok c after →
        Defines services.sources c ∧ c.name = name := by
  unfold Exec.load
  obtain ⟨loads, fails⟩ := sound.loaded.after_load name
  cases ended : Loader.load services.sources name machine.loaded with
  | ok c loaded =>
    obtain ⟨soundAfter, grows, named, known⟩ := loads c loaded ended
    have links := fun other defined => (sound.links other defined).grows grows
    refine ⟨⟨⟨soundAfter, sound.heap, sound.classes, links⟩, .refl _, rfl⟩,
      fun other after same => ?_⟩
    cases same
    exact ⟨known.1, named⟩
  | error error loaded =>
    obtain ⟨soundAfter, grows⟩ := fails error loaded ended
    have links := fun other defined => (sound.links other defined).grows grows
    have succeeds : machine.Succeeds services.sources { machine with loaded } :=
      ⟨⟨soundAfter, sound.heap, sound.classes, links⟩, .refl _, rfl⟩
    exact ⟨succeeds, fun _ _ same => by cases same⟩

/-- A class is loaded when it is given out. -/
theorem lookup_of_load {services : Services} (sound : machine.Sound services.sources) {name : String}
    {c : LinkedClass} {after : Machine} (ended : Exec.load name services machine = .ok c after) :
    after.loaded.lookup name = some c := by
  unfold Exec.load at ended
  cases loading : Loader.load services.sources name machine.loaded with
  | ok found loaded =>
    rw [loading] at ended
    cases ended
    obtain ⟨-, -, named, known⟩ := (sound.loaded.after_load name).1 _ _ loading
    exact named ▸ known.2
  | error error loaded =>
    rw [loading] at ended
    cases ended

/-- A class is changed in a way that keeps its state sound; no other class has its name. -/
theorem succeeds_withClass (sound : machine.Sound sources) {c : LinkedClass}
    (defined : Defines sources c) {change : ClassState → ClassState}
    (changed : (change (Exec.stateIn c machine)).Sound sources c)
    (loads : (change (Exec.stateIn c machine)).Loads c machine.loaded) :
    machine.Succeeds sources (Exec.withClass c change machine) := by
  have state (other : LinkedClass) (otherDefined : Defines sources other) :
      Exec.stateIn other (Exec.withClass c change machine) = change (Exec.stateIn c machine) ∧
        other = c ∨
      Exec.stateIn other (Exec.withClass c change machine) = Exec.stateIn other machine := by
    rw [Exec.stateIn, Exec.withClass, Exec.lookup_alter]
    split
    · next same =>
      obtain rfl := otherDefined.eq_of_name_eq defined same
      exact .inl ⟨rfl, rfl⟩
    · exact .inr rfl
  refine ⟨⟨sound.loaded, sound.heap, fun other otherDefined => ?_, fun other otherDefined => ?_⟩,
    .refl _, rfl⟩
  · rcases state other otherDefined with ⟨here, rfl⟩ | elsewhere
    · exact here ▸ changed
    · exact elsewhere ▸ sound.classes other otherDefined
  · rcases state other otherDefined with ⟨here, rfl⟩ | elsewhere
    · exact here ▸ loads
    · exact elsewhere ▸ sound.links other otherDefined

end Machine.Sound

theorem Exec.putField_eq (ref : Ref) (slot : Nat) (value : Value) (services : Services)
    (machine : Machine) :
    putField ref slot value services machine =
      if ((machine.heap.get ref).field? slot).isSome then
        .ok () { machine with heap := machine.heap.set ref slot value }
      else .error (.fatal (.noSuchField (machine.heap.get ref).className s!"#{slot}")) machine := by
  have read : (get : Exec Machine) services machine = .ok machine machine := rfl
  unfold putField
  rw [Operation.bind_of_ok read]
  split
  · rfl
  · rfl

/-- What a machine is set up with is there: the root class, which can be extended, the class of
strings, which have no fields, and the fields for the standard streams, which hold references. -/
structure Setup.Grounded (setup : Setup) : Prop where
  extensible (root : LinkedClass) (defined : Defines setup.sources root)
    (named : root.name = ClassName.object) : root.isInterface = false ∧ root.flags.isFinal = false
  strings : Defines setup.sources setup.stringClass
  named : setup.stringClass.name = ClassName.string
  fieldless (c : LinkedClass) (defined : Defines setup.sources c)
    (isString : c.name = ClassName.string) : c.instanceFields = []
  streams (system owner : LinkedClass) (defined : Defines setup.sources system)
    (named : system.name = ClassName.system) (name : String) (stream : name ∈ ["out", "err"])
    (field : Field) (found : system.staticField? name = some (owner, field)) :
    field.type.kind = .reference

/-! ## The regime -/

namespace Regime

/-- The regime of sound machines whose heaps have grown from a given one. -/
def sound (setup : Setup) (start : Heap) : Regime where
  good machine := machine.Sound setup.sources ∧ start.Grows machine.heap
  kept before after := before.heap.Grows after.heap
  known := .provided setup.sources
  kept_refl machine := .refl machine.heap
  kept_trans near far := near.trans far
  good_depth _ holds := ⟨⟨holds.1.loaded, holds.1.heap, holds.1.classes, holds.1.links⟩, holds.2⟩
  kept_depth machine _ := .refl machine.heap

variable {setup : Setup} {start : Heap} {α β : Type} {gives : α → Prop}

/-- What makes no calls follows if the machine is sound again. -/
theorem sound_of_succeeds {action : Exec α}
    (callFree : ∀ invoke invoke' machine,
      action (setup.withInvoker invoke') machine = action (setup.withInvoker invoke) machine)
    (succeeds : ∀ invoke machine, machine.Sound setup.sources →
      machine.Succeeds setup.sources (endState (action (setup.withInvoker invoke) machine)) ∧
        ∀ value after, action (setup.withInvoker invoke) machine = .ok value after → gives value) :
    (sound setup start).Follows setup gives action := by
  refine follows_of_callFree callFree fun invoke machine good => ?_
  obtain ⟨step, given⟩ := succeeds invoke machine good.1
  exact ⟨⟨step.sound, good.2.trans step.heap⟩, step.depth, step.heap, given⟩

/-- So does a change of the machine. -/
theorem sound_modify {change : Machine → Machine}
    (succeeds : ∀ machine : Machine, machine.Sound setup.sources →
      machine.Succeeds setup.sources (change machine)) :
    (sound setup start).Follows setup anything (modify change : Exec Unit) :=
  sound_of_succeeds (fun _ _ _ => rfl) fun _ machine sound =>
    ⟨succeeds machine sound, fun _ _ _ => trivial⟩

theorem sound_load (name : String) :
    (sound setup start).Follows setup ((Knowledge.provided setup.sources).Named name)
      (Exec.load name) := by
  refine sound_of_succeeds (fun _ _ _ => rfl) fun invoke machine sound => ?_
  have sourced : (setup.withInvoker invoke).sources = setup.sources := rfl
  rw [← sourced] at sound
  exact sound.succeeds_load name

theorem sound_setPhase {c : LinkedClass} (defined : Defines setup.sources c) (phase : InitPhase) :
    (sound setup start).Follows setup anything (Exec.setPhase c phase) :=
  sound_modify fun _ sound =>
    sound.succeeds_withClass defined ((sound.classes c defined).setPhase phase)
      (sound.links c defined)

theorem sound_setStatic {c : LinkedClass} (defined : Defines setup.sources c) {field : Field}
    (member : field ∈ c.staticFields) {value : Value} (stores : field.Stores value) :
    (sound setup start).Follows setup anything (Exec.setStatic c field.slot value) := by
  refine sound_of_succeeds (fun _ _ machine => ?_) fun invoke machine sound =>
    ⟨?_, fun _ _ _ => trivial⟩
  · rw [Exec.setStatic_eq, Exec.setStatic_eq]
  · rw [Exec.setStatic_eq]
    split
    · exact sound.succeeds_withClass defined
        ((sound.classes c defined).setStatic defined member stores) (sound.links c defined)
    · exact ⟨sound, .refl _, rfl⟩

/-- The object of a reference is the one that is there; what is known of sound objects is known of
it. -/
theorem leads_object (ref : Ref) :
    (sound setup start).Leads setup (fun _ => True) (Exec.object ref) fun object machine =>
      object.Typed setup.sources ∧ object = machine.heap.get ref := by
  intro calls first second _ machine good depth _
  refine ⟨rfl, ⟨good, depth, .refl _, fun _ _ _ => trivial⟩, fun object after ended => ?_⟩
  cases ended
  exact ⟨good.1.heap.typed ref, rfl⟩

theorem sound_object (ref : Ref) :
    (sound setup start).Follows setup (Knowledge.provided setup.sources).Object
      (Exec.object ref) :=
  ((leads_object ref).weaken (fun _ => id) fun _ _ found => found.1.provided).follows

/-- An object of a class is where a reference points. -/
def Made (c : LinkedClass) (ref : Ref) (machine : Machine) : Prop :=
  ref < machine.heap.objects.size ∧ (machine.heap.get ref).type = c

/-- An object that is sound may be made. -/
theorem leads_allocate (object : HeapObject) :
    (sound setup start).Leads setup (fun machine => object.Sound setup.sources machine.heap)
      (Exec.allocate object) (Made object.type) := by
  intro calls first second _ machine good depth new
  have succeeds := good.1.succeeds_heap (good.1.heap.add new) (machine.heap.grows_add object)
  refine ⟨rfl, ⟨⟨succeeds.sound, good.2.trans succeeds.heap⟩, depth, succeeds.heap,
    fun _ _ _ => trivial⟩, fun ref after ended => ?_⟩
  cases ended
  refine ⟨?_, ?_⟩
  · change machine.heap.objects.size < (machine.heap.add object).2.objects.size
    rw [Heap.size_add]
    exact Nat.lt_succ_self _
  · exact congrArg HeapObject.type Heap.get_add_self

/-- An object that is sound on every heap may be made anywhere. -/
theorem sound_allocate {object : HeapObject}
    (new : ∀ heap : Heap, object.Sound setup.sources heap) :
    (sound setup start).Follows setup anything (Exec.allocate object) :=
  ((leads_allocate object).weaken (fun machine _ => new machine.heap)
    fun _ _ _ => trivial).follows

theorem sound_putField (ref : Ref) (slot : Nat) (value : Value) :
    (sound setup start).Follows setup anything (Exec.putField ref slot value) := by
  refine sound_of_succeeds (fun _ _ machine => ?_) fun invoke machine sound =>
    ⟨?_, fun _ _ _ => trivial⟩
  · rw [Exec.putField_eq, Exec.putField_eq]
  · rw [Exec.putField_eq]
    split
    · next present =>
      refine sound.succeeds_heap (sound.heap.set fun component slots array => ?_)
        (machine.heap.grows_set ref slot value)
      rw [HeapObject.array?_of_field? present] at array
      cases array
    · exact ⟨sound, .refl _, rfl⟩

theorem sound_print (toErrors : Bool) (text : String) :
    (sound setup start).Follows setup anything (Exec.print toErrors text) := by
  refine sound_modify fun machine sound => ?_
  split
  · exact ⟨⟨sound.loaded, sound.heap, sound.classes, sound.links⟩, .refl _, rfl⟩
  · exact ⟨⟨sound.loaded, sound.heap, sound.classes, sound.links⟩, .refl _, rfl⟩

theorem sound_readClock :
    (sound setup start).Follows setup anything Native.SystemMethods.readClock :=
  sound_of_succeeds (fun _ _ _ => rfl) fun _ _ sound =>
    ⟨⟨⟨sound.loaded, sound.heap, sound.classes, sound.links⟩, .refl _, rfl⟩, fun _ _ _ => trivial⟩

theorem sound_instantiate {c : LinkedClass} (defined : Defines setup.sources c) :
    (sound setup start).Follows setup anything (Exec.allocate (.ofClass c)) :=
  sound_allocate fun _ => HeapObject.sound_ofClass (.inl defined)

theorem sound_allocateZeros {c : LinkedClass} (defined : Defines setup.sources c)
    (length : Nat) :
    (sound setup start).Follows setup anything (Exec.allocateZeros c length) := by
  unfold Exec.allocateZeros
  split
  · exact follows_throw _
  · next component typed =>
    exact sound_allocate fun heap => HeapObject.sound_zeros (.inl defined) typed length

/-! ## In the code of a class -/

/-- Something done where something holds, which holds afterwards as well. -/
def Within {σ : Type} [MachineState σ] (regime : Regime) (setup : Setup) (here : σ → Prop)
    (gives : α → Prop) (operation : Operation σ α) : Prop :=
  regime.Leads setup here operation fun value state => gives value ∧ here state

section Within

variable {regime : Regime} {wanted : β → Prop}

theorem within_pure {σ : Type} [MachineState σ] {here : σ → Prop} {value : α}
    (given : gives value) : regime.Within setup here gives (pure value) :=
  leads_pure fun _ holds => ⟨given, holds⟩

theorem Within.bind {σ : Type} [MachineState σ] {here : σ → Prop} {operation : Operation σ α}
    {next : α → Operation σ β} (first : regime.Within setup here gives operation)
    (rest : ∀ value, gives value → regime.Within setup here wanted (next value)) :
    regime.Within setup here wanted (operation >>= next) :=
  Leads.bind first fun value => leads_of_fact (rest value)

theorem Follows.within {σ : Type} [MachineState σ] {operation : Operation σ α} {here : σ → Prop}
    (follows : regime.Follows setup gives operation)
    (stays : ∀ services state value after, here state →
      operation services state = .ok value after → here after) :
    regime.Within setup here gives operation :=
  (follows.leads).shows fun invoke state value after holds ended =>
    stays (setup.withInvoker invoke) state value after holds ended

/-- A part of an instruction in the code of a class. -/
def InCode (owner : LinkedClass) (state : StepState) : Prop :=
  state.frame.owner = owner

theorem Follows.inCode {action : Step α} {owner : LinkedClass}
    (follows : regime.Follows setup gives action) (stays : Step.Stays action) :
    regime.Within setup (InCode owner) gives action := by
  refine follows.within fun services state value after here ended => ?_
  obtain ⟨⟨_, _, same⟩, -, -⟩ := stays services state
  rw [ended] at same
  change after.frame.owner = owner
  rw [show after.frame = _ from same]
  exact here

end Within

theorem sound_constantAt (owner : LinkedClass) (index : UInt16) :
    (sound setup start).Within setup (InCode owner)
      (fun constant => owner.constant? index = some constant) (Step.constantAt index) := by
  have follows : (sound setup start).Follows setup anything (Step.constantAt index) := by
    refine follows_frame.bind fun frame _ => ?_
    dsimp only
    split
    · exact follows_pure trivial
    · exact follows_onMachine (follows_throw _)
  have begun : (sound setup start).Within setup (InCode owner) anything (Step.constantAt index) :=
    follows.inCode (stays_compositional.step_constantAt index)
  refine (begun.shows fun invoke state constant after here ended => ?_).weaken (fun _ => id)
    fun _ _ shown => ⟨shown.2, shown.1.2⟩
  obtain rfl : state.frame.owner = owner := here
  unfold Step.constantAt at ended
  simp only [Bind.bind, ReaderT.bind, EStateM.bind, Step.frame] at ended
  cases found : state.frame.owner.constant? index with
  | some constant =>
    rw [found] at ended
    cases ended
    rfl
  | none =>
    rw [found] at ended
    cases ended

/-! ## Links -/

/-- A constant of the code names a class, which is loaded. -/
def NamesLoaded (owner : LinkedClass) (name : String) (state : StepState) : Prop :=
  InCode owner state ∧ ∃ d, state.machine.loaded.lookup name = some d

section Links

variable {owner : LinkedClass} (defined : Defines setup.sources owner) {index : UInt16}
  {found : Constant} {name : String} (constant : owner.constant? index = some found)
  (names : found.className? = some name)

include defined

/-- What a constant is linked to is what it stands for, and the class that it names is loaded. -/
theorem leads_linkAt :
    (sound setup start).Leads setup (InCode owner) (Step.linkAt index) fun link state =>
      InCode owner state ∧ ∀ linked, link = some linked →
        Resolves setup.sources owner index linked ∧
          ∀ found name, owner.constant? index = some found → found.className? = some name →
            NamesLoaded owner name state := by
  intro calls first second _ state good depth here
  obtain rfl : state.frame.owner = owner := here
  have read (invoke : Invoker) : Step.linkAt index (setup.withInvoker invoke) state =
      .ok ((Exec.stateIn state.frame.owner state.machine).links.lookup index) state := rfl
  rw [read, read]
  refine ⟨rfl, ⟨good, depth, .refl _, fun _ _ _ => trivial⟩, fun link after ended => ?_⟩
  cases ended
  refine ⟨rfl, fun linked known => ?_⟩
  obtain ⟨before, rest, split, -⟩ := List.lookup_eq_some_iff.mp known
  have member := split ▸ List.mem_append_right before List.mem_cons_self
  exact ⟨(good.1.classes _ defined).links index linked member, fun found name constant names =>
    ⟨rfl, good.1.links _ defined index linked found name member constant names⟩⟩

include constant names

theorem leads_setLink {link : Linkage} (resolves : Resolves setup.sources owner index link) :
    (sound setup start).Leads setup (NamesLoaded owner name) (Step.setLink index link)
      fun _ => NamesLoaded owner name := by
  rintro calls first second _ state good depth ⟨here, d, known⟩
  obtain rfl : state.frame.owner = owner := here
  let change (old : ClassState) : ClassState := { old with links := (index, link) :: old.links }
  have changed (invoke : Invoker) : Step.setLink index link (setup.withInvoker invoke) state =
      .ok () { state with machine := Exec.withClass state.frame.owner change state.machine } := rfl
  have linked : (change (Exec.stateIn state.frame.owner state.machine)).Sound setup.sources
      state.frame.owner := (good.1.classes _ defined).setLink resolves
  have loads : (change (Exec.stateIn state.frame.owner state.machine)).Loads state.frame.owner
      state.machine.loaded := (good.1.links _ defined).setLink constant names known link
  have succeeds := good.1.succeeds_withClass defined linked loads
  rw [changed, changed]
  refine ⟨rfl, ⟨⟨succeeds.sound, good.2.trans succeeds.heap⟩, ?_, succeeds.heap,
    fun _ _ _ => trivial⟩, fun _ after ended => ?_⟩
  · exact succeeds.depth.trans depth
  · cases ended
    exact ⟨rfl, d, known⟩

/-- The class that a constant names is loaded when it is given out. -/
theorem leads_classNamed :
    (sound setup start).Leads setup (InCode owner) (Step.classNamed index name) fun c state =>
      (Defines setup.sources c ∧ c.name = name) ∧ NamesLoaded owner name state := by
  refine (leads_linkAt defined).bind fun link => ?_
  split
  · next c =>
    refine leads_pure fun state known => ?_
    obtain ⟨resolves, loaded⟩ := known.2 _ rfl
    exact ⟨(Knowledge.Pool.resolved setup.sources owner).named constant names resolves,
      loaded found name constant names⟩
  · have load : (sound setup start).Leads setup (InCode owner) (Step.onMachine (Exec.load name))
        fun c state => (Defines setup.sources c ∧ c.name = name) ∧ NamesLoaded owner name state := by
      intro calls first second twins state good depth here
      have inCode : (sound setup start).Within setup (InCode owner) _ (Step.onMachine _) :=
        (follows_onMachine (sound_load name)).inCode (Step.stays_onMachine _)
      obtain ⟨same, within, given⟩ := inCode calls first second twins state good depth here
      refine ⟨same, within, fun c after ended => ?_⟩
      obtain ⟨isKnown, hereStill⟩ := given c after ended
      have loading := Operation.of_ofExec_ok (Operation.ofExec_eq_onMachine _ ▸ ended)
      exact ⟨isKnown, hereStill, c, good.1.lookup_of_load loading⟩
    refine (load.weaken (fun _ inside => inside.1) fun _ _ => id).bind fun c => ?_
    refine leads_of_fact fun isKnown => ?_
    have resolves : Resolves setup.sources owner index (.named c) :=
      .named constant (names.trans (congrArg some isKnown.2.symm)) isKnown.1
    exact (leads_setLink defined constant names resolves).bind fun _ =>
      leads_pure fun state inside => ⟨isKnown, inside⟩

/-- A member that is looked for is what the constant stands for. -/
theorem leads_linked {find : LinkedClass → Except Error Linkage}
    (finds : ∀ c link, (Knowledge.provided setup.sources).Named name c → find c = .ok link →
      Resolves setup.sources owner index link) :
    (sound setup start).Leads setup (InCode owner) (Step.linked index name find) fun link state =>
      Resolves setup.sources owner index link ∧ InCode owner state := by
  have found : (sound setup start).Leads setup (InCode owner) (do
      let c ← Step.classNamed index name
      let link ← Exec.ofExcept (find c)
      Step.setLink index link
      return link : Step Linkage) fun link state =>
        Resolves setup.sources owner index link ∧ InCode owner state := by
    refine (leads_classNamed defined constant names).bind fun c => leads_of_fact fun isKnown => ?_
    cases found : find c with
    | ok link =>
      have resolves := finds c link isKnown found
      exact (leads_setLink defined constant names resolves).bind fun _ =>
        leads_pure fun state inside => ⟨resolves, inside.1⟩
    | error error =>
      have failing : (sound setup start).Leads setup (fun _ => True)
          (Exec.fail error : Exec Linkage) fun _ _ => False := leads_throw (.fatal error)
      refine ((leads_onMachine failing).weaken (fun _ _ => trivial) fun _ _ => id).bind fun _ => ?_
      exact fun _ _ _ _ _ _ _ => False.elim
  refine (leads_linkAt defined).bind fun link => ?_
  split
  · exact found.weaken (fun _ inside => inside.1) fun _ _ => id
  · exact found.weaken (fun _ inside => inside.1) fun _ _ => id
  · exact leads_pure fun state known => ⟨(known.2 _ rfl).1, known.1⟩

end Links

section Grounded

variable (grounded : setup.Grounded)

include grounded

theorem sound_newString (text : String) :
    (sound setup start).Follows setup anything (Exec.newString text) := by
  refine sound_of_succeeds (fun _ _ _ => rfl) fun _ machine sound => ?_
  have new : HeapObject.Sound setup.sources machine.heap ⟨setup.stringClass, .text text⟩ :=
    (HeapObject.typed_text (.inl grounded.strings) grounded.named text).sound rfl
  exact ⟨sound.succeeds_heap (sound.heap.add new) (machine.heap.grows_add _), fun _ _ _ => trivial⟩

theorem sound_intern (text : String) :
    (sound setup start).Follows setup anything (Exec.intern text) := by
  refine follows_get.bind fun machine _ => ?_
  split
  · exact follows_pure trivial
  · refine (sound_newString grounded text).bind fun ref _ => ?_
    have noted : (sound setup start).Follows setup anything
        (modify fun machine : Machine => { machine with interned := (text, ref) :: machine.interned } :
          Exec Unit) :=
      sound_modify fun _ sound => ⟨⟨sound.loaded, sound.heap, sound.classes, sound.links⟩, .refl _, rfl⟩
    exact noted.bind fun _ _ => follows_pure trivial

theorem sound_constantValue (constant : FieldConstant) :
    (sound setup start).Follows setup constant.Gives (Exec.constantValue constant) := by
  cases constant with
  | string text =>
    exact (sound_intern grounded text).bind fun ref _ => follows_pure ⟨ref, rfl⟩
  | int | long | float | double => exact follows_pure rfl

theorem sound_assignConstants {c : LinkedClass} (defined : Defines setup.sources c) :
    (sound setup start).Follows setup anything (Exec.assignConstants c c.staticFields) := by
  suffices fields : ∀ fields : List Field, (∀ field ∈ fields, field ∈ c.staticFields) →
      (sound setup start).Follows setup anything (Exec.assignConstants c fields) from
    fields c.staticFields fun _ => id
  intro fields members
  induction fields with
  | nil => exact follows_pure trivial
  | cons field rest ih =>
    have restAssigned := ih fun other member => members other (List.mem_cons_of_mem _ member)
    rw [Exec.assignConstants]
    split
    · next constant initial =>
      refine (sound_constantValue grounded constant).bind fun value given => ?_
      have stores : field.Stores value := .inr ⟨constant, initial, given⟩
      exact (sound_setStatic defined (members field List.mem_cons_self) stores).bind
        fun _ _ => restAssigned
    · exact restAssigned

omit grounded in
theorem sound_runInitializer {c : LinkedClass} (defined : Defines setup.sources c) :
    (sound setup start).Follows setup anything (Exec.runInitializer c) := by
  unfold Exec.runInitializer
  split
  · exact follows_pure trivial
  · next index declared =>
    obtain ⟨method, present, -⟩ := LinkedClass.exists_of_declaredMethod? declared
    have callable := (Knowledge.provided setup.sources).declared defined present trivial
    exact (follows_invoke callable []).bind fun _ _ => follows_pure trivial

/-- **The simplest actions keep machines sound**, in the code of any class, and what they give is
known. -/
theorem sound_informed (start : Heap) {owner : LinkedClass} (defined : Defines setup.sources owner) :
    Informed (.provided setup.sources) (.resolved setup.sources owner)
      (fun gives action => (sound setup start).Follows setup gives action)
      (fun gives action => (sound setup start).Within setup (InCode owner) gives action) where
  exec_pure := follows_pure
  exec_bind first rest := first.bind rest
  exec_throw := follows_throw
  exec_get := follows_get
  exec_load := sound_load
  exec_object := sound_object
  exec_invoke callable arguments := follows_invoke callable arguments
  exec_setStatic field _ holds := by
    obtain ⟨defined, field, member, rfl, rfl⟩ := field
    exact sound_setStatic defined member (.inl holds)
  exec_assignConstants := sound_assignConstants grounded
  exec_instantiate := sound_instantiate
  exec_allocateZeros := sound_allocateZeros
  exec_putField := sound_putField
  exec_newString := sound_newString grounded
  exec_intern := sound_intern grounded
  exec_print := sound_print
  exec_readClock := sound_readClock
  exec_initializing isKnown above :=
    follows_initializing (sound_setPhase isKnown) above
      ((sound_assignConstants grounded isKnown).bind fun _ _ => sound_runInitializer isKnown)
  step_pure := within_pure
  step_bind first rest := first.bind rest
  step_throw interruption :=
    (follows_throw interruption).inCode (stays_compositional.step_throw interruption)
  step_onMachine inner := (follows_onMachine inner).inCode (Step.stays_onMachine _)
  step_onFrame operation :=
    (follows_onFrame operation).inCode (stays_compositional.step_onFrame operation)
  step_frame := follows_frame.inCode stays_compositional.step_frame
  step_cursor := follows_cursor.inCode stays_compositional.step_cursor
  step_seek cursor := (follows_seek cursor).inCode (stays_compositional.step_seek cursor)
  step_arrayLimit := follows_arrayLimit.inCode stays_compositional.step_arrayLimit
  step_constantAt := sound_constantAt owner
  step_classNamed constant names :=
    (leads_classNamed defined constant names).weaken (fun _ => id) fun _ _ known =>
      ⟨known.1, known.2.1⟩
  step_linked constant names finds := leads_linked defined constant names finds

end Grounded

end Regime

end JavaMachine
