import JavaMachine.Proofs.Class.Supply
import JavaMachine.Proofs.Execution.EnteredOnce
import JavaMachine.Proofs.Host.Reached
import JavaMachine.Proofs.Signature

/-! # Hosts that call no initializers

A host may call any method that it names, and so it may call the one that initializes a class. A
discreet host has classes initialized but does not name their initializers (`Exec.Discreet`), and
what it does is careful (`Exec.Discreet.careful`). In a session with discreet hosts, whose classes do
not name initializers either, each initializer is entered at most once, whatever the session performs
(`Session.Reached.entersOnce`). A call that names one enters it again (`countAgain_entered`). -/

namespace JavaMachine

open Loader (Defines)

/-! ## Discreet actions -/

/-- What hosts can do with a machine without naming a method that initializes a class. -/
inductive Exec.Discreet : {α : Type} → Exec α → Prop where
  | pure {α : Type} (value : α) : Discreet (pure value)
  | throw {α : Type} (interruption : Interruption) : Discreet (throw interruption : Exec α)
  | bind {α β : Type} {action : Exec α} {next : α → Exec β} (first : Discreet action)
      (rest : ∀ value, Discreet (next value)) : Discreet (action >>= next)
  | tryCatch {α : Type} {action : Exec α} {handle : Interruption → Exec α}
      (first : Discreet action) (rest : ∀ interruption, Discreet (handle interruption)) :
      Discreet (tryCatch action handle)
  | get : Discreet (get : Exec Machine)
  | load (name : String) : Discreet (Session.load name)
  | call (className : String) (receiver : Option Ref) (name : String)
      (arguments : List HostValue) (plain : name ≠ MemberName.staticInitializer) :
      Discreet (do (← Target.named className receiver).call name arguments)
  | callExactly (className : String) (receiver : Option Ref) (name descriptor : String)
      (arguments : List HostValue) (plain : methodKey name descriptor ≠ initializerKey) :
      Discreet (do (← Target.named className receiver).callExactly name descriptor arguments)
  | getField (className : String) (receiver : Option Ref) (name : String) :
      Discreet (do (← Target.named className receiver).getField name)
  | setField (className : String) (receiver : Option Ref) (name : String) (value : HostValue) :
      Discreet (do (← Target.named className receiver).setField name value)
  | construct (className : String) (arguments : List HostValue) :
      Discreet (do (← Session.load className).construct arguments)
  | newString (text : String) : Discreet (Exec.newString text)
  | intern (text : String) : Discreet (Exec.intern text)
  | print (toErrors : Bool) (text : String) : Discreet (Exec.print toErrors text)
  | throwNew {α : Type} (className : String) (detail : Option String) :
      Discreet (Exec.throwNew className detail : Exec α)
  | initializing (className : String) :
      Discreet (do Exec.ensureInitialized (← Session.load className))
  | invokeStatic (className name descriptor : String) (arguments : List Value)
      (plain : methodKey name descriptor ≠ initializerKey) :
      Discreet (Exec.invokeStatic className name descriptor arguments)
  | invokeVirtual (ref : Ref) (name descriptor : String) (arguments : List Value)
      (plain : methodKey name descriptor ≠ initializerKey) :
      Discreet (Exec.invokeVirtual ref name descriptor arguments)

theorem Exec.Discreet.offered {α : Type} {action : Exec α} (discreet : action.Discreet) :
    action.Offered := by
  induction discreet with
  | pure value => exact .pure value
  | throw interruption => exact .throw interruption
  | bind _ _ first rest => exact .bind first rest
  | tryCatch _ _ first rest => exact .tryCatch first rest
  | get => exact .get
  | load name => exact .load name
  | call className receiver name arguments => exact .call className receiver name arguments
  | callExactly className receiver name descriptor arguments =>
    exact .callExactly className receiver name descriptor arguments
  | getField className receiver name => exact .getField className receiver name
  | setField className receiver name value => exact .setField className receiver name value
  | construct className arguments => exact .construct className arguments
  | newString text => exact .newString text
  | intern text => exact .intern text
  | print toErrors text => exact .print toErrors text
  | throwNew className detail => exact .throwNew className detail
  | initializing className => exact .initializing className
  | invokeStatic className name descriptor arguments =>
    exact .invokeStatic className name descriptor arguments
  | invokeVirtual ref name descriptor arguments =>
    exact .invokeVirtual ref name descriptor arguments

/-! ## Candidates that are no initializers -/

namespace Candidate

variable {sources : List ClassSource} {candidate : Candidate} {c : LinkedClass}

theorem passes_of_mem {test : Method → Bool} (member : candidate ∈ declaredIn c test) :
    test candidate.method = true := by
  obtain ⟨_, numbered, rfl⟩ := List.mem_map.mp member
  exact (List.mem_filter.mp numbered).2

theorem name_of_all {name : String} {static : Bool} (member : candidate ∈ all c name static) :
    candidate.method.name = name := by
  obtain ⟨_, -, declared⟩ := List.mem_flatMap.mp (mem_of_distinct member)
  exact eq_of_beq (Bool.and_eq_true_iff.mp (passes_of_mem declared)).1

theorem Declared.sealed (declared : candidate.Declared sources)
    (plain : candidate.method.key ≠ initializerKey) :
    (Knowledge.sealed sources).Method candidate.owner candidate.index :=
  ⟨declared.defined, _, declared.present, Method.plain_of_key_ne plain⟩

/-- The descriptor begins where the first parenthesis is, so that the key tells the name. -/
theorem Declared.key_ne (declared : candidate.Declared sources)
    (plain : candidate.method.name ≠ MemberName.staticInitializer) :
    candidate.method.key ≠ initializerKey := by
  intro same
  have spelled := (MethodDescriptor.ofDescriptor?_eq_some_iff.mp
    (declared.defined.spells declared.present)).2
  have characters := congrArg String.toList same
  rw [Method.key, methodKey, ← spelled, initializerKey, methodKey, String.toList_append,
    String.toList_append, MethodDescriptor.descriptor, String.toList_ofList,
    MethodDescriptor.write] at characters
  have notInName : '(' ∉ MemberName.staticInitializer.toList := by decide
  have notAfter : '(' ∉ ")V".toList := by decide
  have named := (List.append_cons_inj_of_notMem notInName notAfter).mp characters.symm
  exact plain (String.toList_injective named.1.symm)

end Candidate

/-! ## What hosts enter -/

namespace Regime

variable {setup : Setup} {start : Heap} {fuel : Nat} {α : Type}

/-- Preparations make no calls. -/
theorem tracedFrom_preparation {begins : Machine → Prop} {action : Exec α}
    (prepares : ∀ {OfExec : ∀ α : Type, Exec α → Prop}, Preparatory OfExec → OfExec α action) :
    TracedFrom setup start fuel begins action :=
  tracedFrom_of_callFree (callFree_of_inert (prepares inert_preparatory))
    (prepares charted_zero.preparatory)

section Discreet

variable (governs : (sound setup start).Governs setup) (grounded : setup.Grounded)
  (unnamed : InitializersUnnamed setup.sources) (calls : CallsTraced setup start fuel)
  {c : LinkedClass} {target : Target}

include governs grounded unnamed calls

/-- A declared method that is no initializer is called. -/
theorem traced_callCandidate {candidate : Candidate} (declared : candidate.Declared setup.sources)
    (plain : candidate.method.key ≠ initializerKey) (receiver : Option Ref)
    (arguments : List HostValue) :
    TracedFrom setup start fuel
      (fun machine => Candidate.Passable setup.sources machine.heap
        candidate.method.descriptor.parameters arguments) (candidate.call receiver arguments) := by
  have informed := careful_informed governs grounded unnamed calls grounded.strings
  have given (result : Option Value) :
      TracedFrom setup start fuel (fun _ => True) (candidate.giveResult result) :=
    tracedFrom_preparation fun closed => closed.giveResult candidate result
  refine TracedFrom.bind governs (tracedFrom_preparation fun closed => closed.convertEach _ _)
    (leads_convert grounded candidate arguments) fun converted => ?_
  cases receiver with
  | none =>
    refine (informed.exec_ensureInitialized declared.defined).traced_bind governs fun _ _ => ?_
    exact (careful_invoke calls (declared.sealed plain) _).traced_bind governs
      fun result _ => given result
  | some ref =>
    have dispatched : Careful setup start fuel
        (fun found : LinkedClass × Nat => (Knowledge.sealed setup.sources).Method found.1 found.2)
        (candidate.dispatch ref) := by
      unfold Candidate.dispatch
      split
      · exact informed.exec_pure (declared.sealed plain)
      · refine informed.exec_bind (informed.exec_object ref) fun object isKnown => ?_
        dsimp only
        split
        · next selected =>
          exact informed.exec_pure ((Knowledge.sealed _).found isKnown plain selected)
        · exact informed.exec_throw _
    refine dispatched.traced_bind governs fun found isKnown => ?_
    exact (careful_invoke calls isKnown _).traced_bind governs fun result _ => given result

theorem careful_call (defined : Defines setup.sources target.type) {name : String}
    (plain : name ≠ MemberName.staticInitializer) (arguments : List HostValue) :
    Careful setup start fuel anything (target.call name arguments) where
  follows := sound_call grounded defined name arguments
  traced := by
    refine TracedFrom.bind governs (tracedFrom_preparation fun closed => closed.select _ _ _ _)
      (leads_select _ _ _ _) fun candidate => tracedFrom_of_fact fun member => ?_
    have declared := Candidate.declared_of_all defined member
    have named := Candidate.name_of_all member
    exact traced_callCandidate governs grounded unnamed calls declared
      (declared.key_ne (named ▸ plain)) _ arguments

theorem careful_callExactly (defined : Defines setup.sources target.type) {name descriptor : String}
    (plain : methodKey name descriptor ≠ initializerKey) (arguments : List HostValue) :
    Careful setup start fuel anything (target.callExactly name descriptor arguments) where
  follows := sound_callExactly grounded defined name descriptor arguments
  traced := by
    unfold Target.callExactly
    split
    · exact tracedFrom_preparation fun closed => closed.throw _
    · next candidate found =>
      have member := List.mem_of_find?_eq_some found
      have declared := Candidate.declared_of_all defined member
      have described := List.find?_some found
      have key : candidate.method.key = methodKey name descriptor := by
        rw [Method.key, Candidate.name_of_all member, eq_of_beq described]
      have takes : (sound setup start).Leads setup (fun _ => True) (candidate.takes arguments) _ :=
        leads_of_yields (inert_preparatory.takes _ _) fun _ _ sound _ =>
          Candidate.takes_yields sound candidate arguments
      refine TracedFrom.bind governs (tracedFrom_preparation fun closed => closed.takes _ _) takes
        fun taken => ?_
      split
      · next isTaken =>
        exact (traced_callCandidate governs grounded unnamed calls declared (key ▸ plain) _
          arguments).weaken fun _ passable => passable isTaken
      · exact tracedFrom_preparation fun closed => closed.throw _

omit governs grounded unnamed calls in
theorem careful_named (className : String) (receiver : Option Ref) :
    Careful setup start fuel (fun target : Target => Defines setup.sources target.type)
      (Target.named className receiver) where
  follows := sound_named className receiver
  traced := tracedFrom_preparation fun closed => by
    refine closed.bind (closed.load _) fun c => ?_
    cases receiver with
    | none => exact closed.pure _
    | some ref =>
      refine closed.bind (closed.object ref) fun object => ?_
      split
      · exact closed.pure _
      · exact closed.throw _

theorem careful_place (defined : Defines setup.sources target.type) (name : String) :
    Careful setup start fuel (Located setup) (target.place name) := by
  have informed := careful_informed governs grounded unnamed calls grounded.strings
  unfold Target.place
  split
  · split
    · exact informed.exec_throw _
    · next owner field found =>
      obtain ⟨ownerDefined, static⟩ := (Knowledge.provided _).static defined found
      exact informed.exec_bind (informed.exec_ensureInitialized ownerDefined) fun _ _ =>
        informed.exec_pure static
  · refine informed.exec_bind (informed.exec_object _) fun object _ => ?_
    dsimp only
    split
    · exact informed.exec_throw _
    · exact informed.exec_pure trivial

theorem careful_getField (defined : Defines setup.sources target.type) (name : String) :
    Careful setup start fuel anything (target.getField name) where
  follows := sound_getField grounded defined name
  traced := by
    have informed := careful_informed governs grounded unnamed calls grounded.strings
    refine (careful_place governs grounded unnamed calls defined name).traced_bind governs
      fun found _ => ?_
    have read : Careful setup start fuel anything found.1.read := by
      cases found.1 with
      | static owner slot => exact informed.exec_getStatic owner slot
      | «instance» ref slot => exact informed.exec_getField ref slot
    exact read.traced_bind governs fun value _ =>
      tracedFrom_preparation fun closed => closed.give _ value

theorem careful_setField (defined : Defines setup.sources target.type) (name : String)
    (value : HostValue) : Careful setup start fuel anything (target.setField name value) where
  follows := sound_setField grounded defined name value
  traced := by
    refine (careful_place governs grounded unnamed calls defined name).traced_bind governs
      fun found _ => ?_
    obtain ⟨place, type⟩ := found
    have writes (content : Value) : CallFree setup (place.write content) ∧
        Charted setup 0 (place.write content) := by
      cases place with
      | static owner slot => exact ⟨Exec.callFree_setStatic _ _ _, Exec.charted_setStatic⟩
      | «instance» ref slot =>
        exact ⟨Exec.callFree_putField _ _ _, charted_zero.exec_putField _ _ _⟩
    refine tracedFrom_of_callFree ?_ ?_
    · refine (callFree_of_inert (inert_preparatory.acceptedBy _ value)).bind fun accepted => ?_
      split
      · exact (callFree_of_inert (inert_preparatory.toValue _ value)).bind fun _ => (writes _).1
      · exact callFree_throw _
    · refine (charted_zero.preparatory.acceptedBy _ value).bind fun accepted => ?_
      split
      · exact (charted_zero.preparatory.toValue _ value).bind fun _ => (writes _).2
      · exact charted_throw _

/-- A constructor is called once its class is initialized and there is an instance. -/
theorem careful_construct (defined : Defines setup.sources c) (arguments : List HostValue) :
    Careful setup start fuel anything (c.construct arguments) where
  follows := sound_construct grounded defined arguments
  traced := by
    have informed := careful_informed governs grounded unnamed calls grounded.strings
    unfold LinkedClass.construct
    split
    · have stops : Careful setup start fuel (fun _ : PUnit => False) (Exec.fail
          (.illegalArgument (.notInstantiable (ClassName.dotted c.name)))) := informed.exec_fail _
      exact stops.traced_bind governs fun _ => False.elim
    refine TracedFrom.bind governs (tracedFrom_preparation fun closed => closed.select _ _ _ _)
      (leads_select _ _ _ _) fun candidate => tracedFrom_of_fact fun member => ?_
    have declared := Candidate.declared_of_mem defined member
    have named := Candidate.passes_of_mem member
    have plain : candidate.method.name ≠ MemberName.staticInitializer := by
      rw [eq_of_beq named]
      decide
    have lasts := lasts_passable setup start candidate.method.descriptor.parameters arguments
    refine (informed.exec_ensureInitialized defined).traced_bindLasting governs lasts fun _ _ => ?_
    refine (informed.exec_instantiate defined).traced_bindLasting governs lasts fun ref _ => ?_
    refine TracedFrom.bind governs (tracedFrom_preparation fun closed => closed.convertEach _ _)
      (leads_convert grounded candidate arguments) fun converted => ?_
    have constructs := careful_invoke calls (declared.sealed (declared.key_ne plain))
      (Value.toSlots (.reference (some ref) :: converted))
    rw [Candidate.owner_of_mem member] at constructs
    exact constructs.traced_bind governs fun _ _ =>
      tracedFrom_preparation fun closed => closed.pure _

end Discreet

end Regime

/-- **What discreet hosts do is careful.** -/
theorem Exec.Discreet.careful {setup : Setup} {start : Heap} {fuel : Nat}
    (governs : (Regime.sound setup start).Governs setup) (grounded : setup.Grounded)
    (unnamed : InitializersUnnamed setup.sources) (calls : Regime.CallsTraced setup start fuel)
    {α : Type} {action : Exec α} (discreet : action.Discreet) :
    Regime.Careful setup start fuel anything action := by
  have informed := Regime.careful_informed governs grounded unnamed calls grounded.strings
  have named := @Regime.careful_named setup start fuel
  induction discreet with
  | pure value => exact informed.exec_pure trivial
  | throw interruption => exact informed.exec_throw interruption
  | bind _ _ first rest => exact first.bind governs fun value _ => rest value
  | tryCatch _ _ first rest => exact first.tryCatch governs rest
  | get => exact informed.exec_get
  | load name => exact informed.exec_weaken (informed.exec_load _) fun _ _ => trivial
  | call className receiver name arguments plain =>
    exact (named className receiver).bind governs fun _ defined =>
      Regime.careful_call governs grounded unnamed calls defined plain arguments
  | callExactly className receiver name descriptor arguments plain =>
    exact (named className receiver).bind governs fun _ defined =>
      Regime.careful_callExactly governs grounded unnamed calls defined plain arguments
  | getField className receiver name =>
    exact (named className receiver).bind governs fun _ defined =>
      Regime.careful_getField governs grounded unnamed calls defined name
  | setField className receiver name value =>
    exact (named className receiver).bind governs fun _ defined =>
      Regime.careful_setField governs grounded unnamed calls defined name value
  | construct className arguments =>
    exact informed.exec_bind (informed.exec_load _) fun _ loaded =>
      Regime.careful_construct governs grounded unnamed calls loaded.1 arguments
  | newString text => exact informed.exec_newString text
  | intern text => exact informed.exec_intern text
  | print toErrors text => exact informed.exec_print toErrors text
  | throwNew className detail => exact informed.exec_throwNew className detail
  | initializing className =>
    exact informed.exec_bind (informed.exec_load _) fun _ loaded =>
      informed.exec_ensureInitialized loaded.1
  | invokeStatic className name descriptor arguments plain =>
    exact informed.exec_invokeStatic className plain arguments
  | invokeVirtual ref name descriptor arguments plain =>
    exact informed.exec_invokeVirtual ref plain arguments

/-! ## Sessions with discreet hosts -/

/-- Something that a host does. -/
structure Deed where
  Result : Type
  action : Exec Result

namespace Session

/-- A session after some deeds, one after the other. -/
def after (session : Session) : List Deed → Session
  | [] => session
  | deed :: rest => (session.perform deed.action).2.after rest

/-- The methods that are entered while deeds are done in a session, one after the other. -/
inductive Enters : Session → List Deed → List Entry → Prop where
  | nil {session : Session} : Enters session [] []
  | cons {session : Session} {deed : Deed} {rest : List Deed} {entries later : List Entry}
      (first : JavaMachine.Enters session.setup session.fuel deed.action session.ready entries)
      (others : Enters (session.perform deed.action).2 rest later) :
      Enters session (deed :: rest) (entries ++ later)

namespace Reached

variable {options : Options} {session : Session}

/-- The native methods of a host that do what discreet hosts do. -/
abbrev Discreet (options : Options) : Prop :=
  Compositional.OfTable (fun _ action => action.Discreet) options.natives

theorem Discreet.hosted (natives : Discreet options) : Hosted options :=
  fun entry member call => (natives entry member call).offered

/-- **What a discreet host does next enters fresh initializers only.** -/
theorem traced_perform (natives : Discreet options) (reached : Reached options session)
    (unnamed : InitializersUnnamed session.setup.sources) {α : Type} {action : Exec α}
    (discreet : action.Discreet) :
    ∃ entries, JavaMachine.Enters session.setup session.fuel action session.ready entries ∧
      Fresh session.machine.phases (session.perform action).2.machine.phases entries := by
  have governs := reached.governs natives.hosted session.machine.heap
  have grounded := reached.grounded
  have regular := regular_ready (reached.sound natives.hosted).1
  have serves (fuel : Nat)
      (calls : Regime.CallsTraced session.setup session.machine.heap fuel) :
      Serving (Knowledge.provided session.setup.sources).Calls
        (fun _ action => Regime.Careful session.setup session.machine.heap fuel anything action)
        session.setup.natives := by
    rw [reached.natives_eq]
    refine serving_append.mpr ⟨Compositional.OfTable.serving fun entry member call => ?_,
      Regime.careful_natives governs grounded unnamed calls⟩
    exact (natives entry member call).careful governs grounded unnamed calls
  have calls := Regime.callsTraced governs grounded unnamed serves session.fuel
  have careful := discreet.careful governs grounded unnamed calls
  rw [machine_perform]
  exact careful.traced [] session.ready regular trivial

/-- **Initializers are entered at most once**: whatever discreet hosts do in a session that is
reached, and whatever code they have executed, the initializers that are entered are those of
different classes, each untouched before. -/
theorem entersOnce (natives : Discreet options) (reached : Reached options session)
    (unnamed : InitializersUnnamed session.setup.sources) (deeds : List Deed)
    (discreet : ∀ deed ∈ deeds, deed.action.Discreet) :
    ∃ entries, session.Enters deeds entries ∧
      Fresh session.machine.phases (session.after deeds).machine.phases entries := by
  induction deeds generalizing session with
  | nil => exact ⟨[], .nil, .nil fun _ => id⟩
  | cons deed rest ih =>
    have isDiscreet := discreet deed List.mem_cons_self
    obtain ⟨entries, enters, fresh⟩ := traced_perform natives reached unnamed isDiscreet
    have kept : InitializersUnnamed (session.perform deed.action).2.setup.sources := by
      rw [setup_perform]
      exact unnamed
    obtain ⟨later, entersLater, freshLater⟩ := ih (.performed reached isDiscreet.offered) kept
      fun other member => discreet other (List.mem_cons_of_mem _ member)
    exact ⟨entries ++ later, .cons enters entersLater, fresh.append freshLater⟩

end Reached

end Session

/-! ## Files that name no initializers -/

/-- Whether a constant refers to an initializer as to a method. -/
def Constant.namesInitializer : Constant → Bool
  | .methodref symbol | .interfaceMethodref symbol => symbol.key == initializerKey
  | _ => false

/-- Whether a constant of a class file refers to an initializer, if the file can be read. -/
def ClassFile.namesInitializer (bytes : List UInt8) : Bool :=
  match ClassFile.read bytes with
  | .error _ => false
  | .ok file =>
    match Constant.resolvePool file.pool with
    | .error _ => false
    | .ok pool => pool.any Constant.namesInitializer

/-- Whether the classes are in memory, and none of their files names an initializer. -/
def ClassSource.sparesInitializers : ClassSource → Bool
  | memory classes => classes.all fun entry => !ClassFile.namesInitializer entry.2
  | _ => false

theorem ClassSource.plain_of_find {source : ClassSource} (spares : source.sparesInitializers = true)
    {name : String} {bytes : List UInt8} (found : source.find name = .ok (some bytes)) :
    ClassFile.namesInitializer bytes = false := by
  cases source with
  | memory classes =>
    obtain ⟨before, rest, listed, -⟩ := List.lookup_eq_some_iff.mp (Except.ok.inj found)
    have member : (name, bytes) ∈ classes := listed ▸ List.mem_append_right before List.mem_cons_self
    exact (Bool.not_eq_true' _).mp (List.all_eq_true.mp spares _ member)
  | host | directory | archive => cases spares

theorem LinkedClass.mem_pool_of_constant? {c : LinkedClass} {index : UInt16} {constant : Constant}
    (found : c.constant? index = some constant) : constant ∈ c.info.pool := by
  unfold constant? at found
  split at found
  · cases found
  · split at found
    · cases found
    · exact Array.mem_of_getElem? found

/-- Whether initializers are named can be told from the files. -/
theorem initializersUnnamed_of_spared {sources : List ClassSource}
    (spared : ∀ source ∈ sources, source.sparesInitializers = true) : InitializersUnnamed sources := by
  intro c defined index symbol constant same
  have names : c.info.pool.any Constant.namesInitializer = true := by
    refine Array.any_eq_true'.mpr ?_
    rcases constant with found | found
    · exact ⟨_, c.mem_pool_of_constant? found, beq_iff_eq.mpr same⟩
    · exact ⟨_, c.mem_pool_of_constant? found, beq_iff_eq.mpr same⟩
  cases defined with
  | file described _ _ _ _ _ _ linked =>
    obtain ⟨bytes, found, read⟩ := described.found
    obtain ⟨skipped, source, rest, rfl, -, held⟩ := Loader.find_of_findClass found
    have plain := source.plain_of_find (spared source
      (List.mem_append_right skipped List.mem_cons_self)) held
    rw [(Link.members_of_link linked).1] at names
    simp only [ClassFile.namesInitializer, read, described.resolved, names] at plain
    cases plain
  | array =>
    obtain ⟨_, member, -⟩ := Array.any_eq_true'.mp names
    cases Array.not_mem_empty _ member

/-! ## A counter that is started again -/

/-- A counter counts how often it has been started, which its initializer does. -/
def counterScripts : List ClassScript := [
  ⟨"Counter", some ClassName.object, [
    .field Builtin.publicStatic "starts" "I",
    .method Builtin.staticOnly MemberName.staticInitializer "()V" 0 [
      .field .getStatic "Counter" "starts" "I",
      .iconst 1,
      .plain (Opcode.arithmetic .add .int).byte,
      .field .putStatic "Counter" "starts" "I",
      .plain Opcode.returnVoid.byte]]⟩]

/-- A session in which nothing has been done with counters yet. -/
@[irreducible] def counters : Session :=
  Session.opened (Options.ofScripts counterScripts 16)

/-- Reads how often the counter has been started. -/
def countStarts : Exec HostValue := do
  (← Target.named "Counter" none).getField "starts"

/-- Calls the initializer of the counter by its name. -/
def countAgain : Exec HostValue := do
  (← Target.named "Counter" none).call MemberName.staticInitializer []

theorem counters_facts :
    (Session.start (Options.ofScripts counterScripts 16)).isOk = true ∧
      counters.setup.sources.all ClassSource.sparesInitializers = true ∧
      intOf? (counters.perform countStarts).1 = some 1 ∧
      intOf? ((counters.perform countStarts).2.perform countStarts).1 = some 1 ∧
      intOf? (((counters.perform countStarts).2.perform countAgain).2.perform countStarts).1 =
        some 2 := by
  decide +kernel

theorem reached_counters : Session.Reached (Options.ofScripts counterScripts 16) counters := by
  unfold counters
  exact .started (Session.start_opened counters_facts.1)

/-- Nothing that is read from counters has them started again. -/
theorem entersOnce_counters :
    Session.Reached.Discreet (Options.ofScripts counterScripts 16) ∧
      Session.Reached (Options.ofScripts counterScripts 16) counters ∧
      InitializersUnnamed counters.setup.sources ∧ countStarts.Discreet ∧
      intOf? ((counters.perform countStarts).2.perform countStarts).1 = some 1 ∧
      ∃ entries, counters.Enters [⟨_, countStarts⟩, ⟨_, countStarts⟩] entries ∧
        Fresh counters.machine.phases
          (counters.after [⟨_, countStarts⟩, ⟨_, countStarts⟩]).machine.phases entries := by
  obtain ⟨-, spared, -, twice, -⟩ := counters_facts
  have natives : Session.Reached.Discreet (Options.ofScripts counterScripts 16) := by
    intro entry member
    cases (member : entry ∈ [])
  have unnamed := initializersUnnamed_of_spared (List.all_eq_true.mp spared)
  have discreet : countStarts.Discreet := .getField "Counter" none "starts"
  refine ⟨natives, reached_counters, unnamed, discreet, twice, ?_⟩
  refine Session.Reached.entersOnce natives reached_counters unnamed _ fun deed member => ?_
  simp only [List.mem_cons, List.not_mem_nil, or_false, or_self] at member
  rw [member]
  exact discreet

/-- **An initializer that is called by its name is entered again**: the counter has been started once
when its class has been initialized, and twice after that call. -/
theorem countAgain_entered :
    Session.Reached (Options.ofScripts counterScripts 16) counters ∧
      (counters.perform countStarts).1 = .ok (.int 1) ∧
      (((counters.perform countStarts).2.perform countAgain).2.perform countStarts).1 =
        .ok (.int 2) :=
  ⟨reached_counters, eq_ok_of_intOf counters_facts.2.2.1,
    eq_ok_of_intOf counters_facts.2.2.2.2⟩

end JavaMachine
