import JavaMachine.Proofs.Host.Initialization
import JavaMachine.Proofs.Host.Offered

/-! # What sessions reach

A session is started and then performs whatever hosts are offered. What it was set up with is there
from the start (`Session.grounded_of_start`), so its machine is sound at every moment: between the
actions, and while one of them runs, before every instruction and at the beginning of every native
method (`Session.Reached.always`). -/

namespace JavaMachine

open Loader (Defines)

/-! ## What is built in -/

/-- What the file of a script says of the superclass and of the fields: their names and types, and
whether they are static. -/
structure Builtin.Outline where
  superclass : Option String
  fields : List (String × FieldType × Bool)
  deriving DecidableEq

/-- The outline of a script, if its file can be read. -/
def Builtin.outline? (script : ClassScript) : Option Builtin.Outline :=
  match Builtin.fileOf script with
  | .error _ => none
  | .ok (_, bytes) =>
    match ClassFile.read bytes with
    | .error _ => none
    | .ok file =>
      match Constant.resolvePool file.pool with
      | .error _ => none
      | .ok pool =>
        match file.fields.mapM (Link.field pool) with
        | .error _ => none
        | .ok fields => some {
          superclass := if file.superClass = 0 then none
            else (Link.classNameAt pool file.superClass).toOption
          fields := fields.map fun field => (field.name, field.type, field.flags.isStatic) }

/-- Only the class of the system has fields, for the standard streams. -/
theorem Builtin.outline?_eq :
    Builtin.outline? Builtin.object = some ⟨none, []⟩ ∧
      Builtin.outline? Builtin.string = some ⟨some ClassName.object, []⟩ ∧
      Builtin.outline? Builtin.system = some ⟨some ClassName.object, [
        ("out", .object ClassName.printStream, true),
        ("err", .object ClassName.printStream, true)]⟩ := by
  decide +kernel

/-- A built-in class is as its outline says: the static fields are its own, and the others follow
those of the superclass. -/
theorem Loader.Defines.outline {builtin : ClassSource} {rest : List ClassSource}
    {c : LinkedClass} (built : Builtin.source = .ok builtin) (defined : Defines (builtin :: rest) c)
    {script : ClassScript} (member : script ∈ Builtin.scripts) (named : c.name = script.name)
    (plain : script.name.startsWith "[" = false) :
    ∃ fields : List Field, Builtin.outline? script = some {
        superclass := c.superclass.map LinkedClass.name
        fields := fields.map fun field => (field.name, field.type, field.flags.isStatic) } ∧
      c.staticFields = Link.withSlots 0 (fields.filter (·.flags.isStatic)) ∧
      c.instanceFields = (c.superclass.map LinkedClass.instanceFields).getD [] ++
        Link.withSlots ((c.superclass.map LinkedClass.instanceFields).getD []).length
          (fields.filter (!·.flags.isStatic)) := by
  obtain ⟨bytes, file, pool, written, read, resolved, superclassFits, linked⟩ :=
    defined.of_script built member named plain
  obtain ⟨-, ⟨fields, linkedFields, static, layout⟩, -⟩ := Link.members_of_link linked
  refine ⟨fields, ?_, static, layout⟩
  · have above : (if file.superClass = 0 then none
        else (Link.classNameAt pool file.superClass).toOption) =
          c.superclass.map LinkedClass.name := by
      cases extended : c.superclass with
      | none =>
        rw [extended] at superclassFits
        rw [if_pos superclassFits.1]
        rfl
      | some above =>
        rw [extended] at superclassFits
        rw [if_neg superclassFits.1, superclassFits.2.1]
        rfl
    simp only [Builtin.outline?, written, read, resolved, linkedFields, above]

/-- The class of the system has the standard streams as static fields. -/
theorem Loader.Defines.staticFields_system {builtin : ClassSource} {rest : List ClassSource}
    {system : LinkedClass} (built : Builtin.source = .ok builtin)
    (defined : Defines (builtin :: rest) system) (named : system.name = ClassName.system) :
    system.staticFields.map (fun field => (field.name, field.type)) =
      [("out", .object ClassName.printStream), ("err", .object ClassName.printStream)] := by
  have member : Builtin.system ∈ Builtin.scripts :=
    List.mem_cons_of_mem _ (List.mem_cons_of_mem _ List.mem_cons_self)
  obtain ⟨fields, shown, static, -⟩ := defined.outline built member named (by decide +kernel)
  have listed := (Builtin.Outline.mk.inj
    (Option.some.inj (Builtin.outline?_eq.2.2.symm.trans shown))).2
  have all : ∀ field ∈ fields, field.flags.isStatic = true := by
    intro field member
    have entry : (field.name, field.type, field.flags.isStatic) ∈
        fields.map fun field => (field.name, field.type, field.flags.isStatic) :=
      List.mem_map_of_mem member
    rw [← listed] at entry
    simp only [List.mem_cons, Prod.mk.injEq, List.not_mem_nil, or_false] at entry
    rcases entry with ⟨-, -, static⟩ | ⟨-, -, static⟩ <;> exact static
  have projected := congrArg (List.map fun entry => (entry.1, entry.2.1)) listed
  rw [List.map_map] at projected
  rw [static, List.filter_eq_self.mpr all, Link.map_withSlots fun _ _ => rfl]
  exact projected.symm

/-- A built-in class without fields of its own has those of its superclass. -/
theorem Loader.Defines.instanceFields_of_outline {builtin : ClassSource} {rest : List ClassSource}
    {c : LinkedClass} (built : Builtin.source = .ok builtin) (defined : Defines (builtin :: rest) c)
    {script : ClassScript} (member : script ∈ Builtin.scripts) (named : c.name = script.name)
    (plain : script.name.startsWith "[" = false) {above : Option String}
    (outlined : Builtin.outline? script = some ⟨above, []⟩) :
    c.superclass.map LinkedClass.name = above ∧
      c.instanceFields = (c.superclass.map LinkedClass.instanceFields).getD [] := by
  obtain ⟨fields, shown, -, own⟩ := defined.outline built member named plain
  obtain ⟨superclass, none⟩ :=
    Builtin.Outline.mk.inj (Option.some.inj (outlined.symm.trans shown))
  obtain rfl := List.map_eq_nil_iff.mp none.symm
  exact ⟨superclass.symm, own.trans (List.append_nil _)⟩

/-- The root class has no fields. -/
theorem Loader.Defines.instanceFields_root {builtin : ClassSource} {rest : List ClassSource}
    {root : LinkedClass} (built : Builtin.source = .ok builtin)
    (defined : Defines (builtin :: rest) root) (named : root.name = ClassName.object) :
    root.instanceFields = [] := by
  obtain ⟨none, inherited⟩ := defined.instanceFields_of_outline built
    (List.mem_cons_self : Builtin.object ∈ Builtin.scripts) named
    (by decide +kernel) Builtin.outline?_eq.1
  rw [inherited, Option.map_eq_none_iff.mp none]
  rfl

/-- Strings have no fields. -/
theorem Loader.Defines.instanceFields_string {builtin : ClassSource} {rest : List ClassSource}
    {c : LinkedClass} (built : Builtin.source = .ok builtin) (defined : Defines (builtin :: rest) c)
    (named : c.name = ClassName.string) : c.instanceFields = [] := by
  obtain ⟨superclass, inherited⟩ := defined.instanceFields_of_outline built
    (List.mem_cons_of_mem _ List.mem_cons_self : Builtin.string ∈ Builtin.scripts) named
    (by decide +kernel) Builtin.outline?_eq.2.1
  obtain ⟨root, extended, rootNamed⟩ := Option.map_eq_some_iff.mp superclass
  have rootDefined := defined.linksTo_defined (.superclass extended)
  rw [inherited, extended]
  exact rootDefined.instanceFields_root built rootNamed

/-- The fields for the standard streams hold references. -/
theorem Loader.Defines.streams {builtin : ClassSource} {rest : List ClassSource}
    {system owner : LinkedClass} (built : Builtin.source = .ok builtin)
    (defined : Defines (builtin :: rest) system) (named : system.name = ClassName.system)
    {name : String} (standard : name ∈ ["out", "err"]) {field : Field}
    (found : system.staticField? name = some (owner, field)) : field.type.kind = .reference := by
  have fields := defined.staticFields_system built named
  have listed : (name, FieldType.object ClassName.printStream) ∈
      system.staticFields.map fun field => (field.name, field.type) := by
    rw [fields]
    simp only [List.mem_cons, List.not_mem_nil, or_false] at standard
    rcases standard with rfl | rfl
    · exact List.mem_cons_self
    · exact List.mem_cons_of_mem _ List.mem_cons_self
  obtain ⟨stream, member, same⟩ := List.mem_map.mp listed
  have declared : (system.declaredStaticField? name).isSome := by
    refine List.find?_isSome.mpr ⟨stream, member, ?_⟩
    rw [(Prod.mk.inj same).1, beq_self_eq_true]
  obtain ⟨first, isFirst⟩ := Option.isSome_iff_exists.mp declared
  rw [LinkedClass.staticField?_eq, isFirst] at found
  obtain ⟨rfl, rfl⟩ := Prod.mk.inj (Option.some.inj found)
  have entry : (first.name, first.type) ∈
      system.staticFields.map fun field => (field.name, field.type) :=
    List.mem_map_of_mem (List.mem_of_find?_eq_some isFirst)
  rw [fields] at entry
  simp only [List.mem_cons, Prod.mk.injEq, List.not_mem_nil, or_false] at entry
  rcases entry with ⟨-, type⟩ | ⟨-, type⟩ <;> rw [type] <;> rfl

/-- The built-in classes come before those of the host. -/
theorem Session.sources_of_start {options : Options} {session : Session}
    (start : Session.start options = .ok session) :
    ∃ builtin, Builtin.source = .ok builtin ∧
      session.setup.sources = builtin :: options.sources := by
  unfold Session.start at start
  rw [Except.bind_eq_ok_iff] at start
  obtain ⟨builtin, built, start⟩ := start
  dsimp only at start
  split at start
  · cases start
  · cases start
    exact ⟨builtin, built, rfl⟩

/-- What a session is started with is there. -/
theorem Session.grounded_of_start {options : Options} {session : Session}
    (start : Session.start options = .ok session) :
    session.setup.Grounded ∧ session.machine.Sound session.setup.sources ∧
      session.machine.depth = 0 := by
  unfold Session.start at start
  rw [Except.bind_eq_ok_iff] at start
  obtain ⟨builtin, built, start⟩ := start
  dsimp only at start
  have fresh : Loader.Sound (builtin :: options.sources) [] := nofun
  split at start
  · cases start
  · next stringClass loaded ended =>
    obtain ⟨soundAfter, -, named, known⟩ := (fresh.after_load ClassName.string).1 _ _ ended
    cases start
    refine ⟨⟨?_, known.1, named, ?_, ?_⟩, ⟨soundAfter, ?_, ?_, ?_⟩, rfl⟩
    · exact fun root defined rootNamed => defined.extensible_root built rootNamed
    · exact fun c defined isString => defined.instanceFields_string built isString
    · exact fun system owner defined isSystem name standard field found =>
        defined.streams built isSystem standard found
    · exact fun ref none => absurd none (Nat.not_lt_zero ref)
    · exact fun c defined => .initial defined
    · exact fun c defined index link found name linked => by cases linked

/-! ## Reached sessions -/

/-- A session that was started with some options, after whatever hosts are offered. -/
inductive Session.Reached (options : Options) : Session → Prop where
  | started {session : Session} (start : Session.start options = .ok session) :
      Reached options session
  | performed {session : Session} {α : Type} {action : Exec α} (reached : Reached options session)
      (offered : action.Offered) : Reached options (session.perform action).2

/-- What holds of a session at every moment, given what is in progress: now, and while an action
runs, before every instruction and at the beginning of every native method. It makes no difference
to have the action stopped wherever it does not hold. -/
structure Session.Always (session : Session) (holds : List Activation → Machine → Prop) : Prop where
  now : holds [] session.machine
  moments {α : Type} (action : Exec α) (offered : action.Offered) (watcher : Watcher)
    (elsewhere : ∀ live machine, watcher live machine = true → ¬ holds live machine) :
    action (session.setup.watched watcher session.fuel []) session.ready =
      action (session.setup.services session.fuel) session.ready

theorem Session.Always.weaken {session : Session} {holds weaker : List Activation → Machine → Prop}
    (always : session.Always holds) (imply : ∀ live machine, holds live machine → weaker live machine) :
    session.Always weaker where
  now := imply _ _ always.now
  moments action offered watcher elsewhere := always.moments action offered watcher
    fun live machine stops holds => elsewhere live machine stops (imply live machine holds)

/-- What holds of the machine of a session, and what is kept of it, whatever the session performs and
whatever code does. -/
structure Session.Maintains (session : Session) (holds : Machine → Prop)
    (keeps : Machine → Machine → Prop) : Prop where
  /-- It holds at every moment, with what is there now kept. -/
  always : session.Always fun _ machine => holds machine ∧ keeps session.machine machine
  /-- It holds before and after every instruction that is executed at a regular moment, however the
  instruction ends and with as much fuel as one likes. -/
  advances (fuel : Nat) (chain : Chain) (live : List Activation) (machine : Machine)
    (regular : (Regime.sound session.setup session.machine.heap).Regular session.setup
      (chain.live ++ live) machine) :
    let after := endState (Execution.advance chain (session.setup.services fuel) machine)
    holds machine ∧ holds after ∧ keeps machine after
  /-- It holds after everything that the session performs. -/
  performs {α : Type} (action : Exec α) (offered : action.Offered) :
    let after := (session.perform action).2.machine
    holds after ∧ keeps session.machine after

namespace Session.Reached

variable {options : Options} {session : Session}

/-- The native methods of a host that do what hosts are offered. -/
abbrev Hosted (options : Options) : Prop :=
  Compositional.OfTable (fun _ action => action.Offered) options.natives

theorem natives_eq (reached : Reached options session) :
    session.setup.natives = options.natives ++ Native.table := by
  induction reached with
  | started start => exact (parts_of_start start).1
  | performed _ _ ih =>
    rw [setup_perform]
    exact ih

theorem sources_eq (reached : Reached options session) :
    ∃ builtin, Builtin.source = .ok builtin ∧ session.setup.sources = builtin :: options.sources := by
  induction reached with
  | started start => exact sources_of_start start
  | performed _ _ ih =>
    rw [setup_perform]
    exact ih

theorem grounded (reached : Reached options session) : session.setup.Grounded := by
  induction reached with
  | started start => exact (grounded_of_start start).1
  | performed _ _ ih =>
    rw [setup_perform]
    exact ih

variable (hosted : Hosted options)

include hosted

theorem governs (reached : Reached options session) (start : Heap) :
    (Regime.sound session.setup start).Governs session.setup :=
  Regime.sound_governs reached.grounded reached.natives_eq
    (Compositional.OfTable.serving fun entry member call =>
      (hosted entry member call).follows reached.grounded start)

omit hosted in
/-- Where no calls are in progress. -/
theorem regular_ready (sound : session.machine.Sound session.setup.sources) :
    (Regime.sound session.setup session.machine.heap).Regular session.setup [] session.ready where
  good := ⟨⟨sound.loaded, sound.heap, sound.classes, sound.links⟩, .refl _⟩
  depth := rfl
  limit := Nat.zero_le _
  hosts _ none := by cases none

/-- What is performed next is performed on a sound machine, and leaves one. -/
theorem performs (reached : Reached options session)
    (sound : session.machine.Sound session.setup.sources) {α : Type} {action : Exec α}
    (offered : action.Offered) {watcher : Watcher}
    (trusts : (Regime.sound session.setup session.machine.heap).Trusts session.setup watcher) :
    action (session.setup.watched watcher session.fuel []) session.ready =
        action (session.setup.services session.fuel) session.ready ∧
      session.ready.Succeeds session.setup.sources
        (endState (action (session.setup.services session.fuel) session.ready)) := by
  have governs := reached.governs hosted session.machine.heap
  obtain ⟨same, ends⟩ := governs.watched_eq trusts
    (offered.follows reached.grounded session.machine.heap) session.fuel (regular_ready sound)
  exact ⟨same, ends.good.1, ends.kept, ends.depth⟩

/-- Between the actions of a session its machine is sound, with no calls in progress. -/
theorem sound (reached : Reached options session) :
    session.machine.Sound session.setup.sources ∧ session.machine.depth = 0 := by
  induction reached with
  | started start => exact (grounded_of_start start).2
  | @performed session α action reached offered ih =>
    have trusts : (Regime.sound session.setup session.machine.heap).Trusts session.setup
        fun _ _ => false := fun _ _ stops => by cases stops
    have succeeds := (reached.performs hosted ih.1 offered trusts).2
    rw [machine_perform, setup_perform]
    exact ⟨succeeds.sound, succeeds.depth⟩

/-- **The machine is sound at every moment.** -/
theorem always (reached : Reached options session) :
    session.Always fun live machine =>
      (Regime.sound session.setup session.machine.heap).Regular session.setup live machine where
  now := by
    obtain ⟨sound, depth⟩ := reached.sound hosted
    exact { regular_ready sound with good := ⟨sound, .refl _⟩, depth }
  moments action offered watcher elsewhere :=
    (reached.performs hosted (reached.sound hosted).1 offered elsewhere).1

/-- **What sound machines have is maintained in every session.** -/
theorem maintains (reached : Reached options session) {holds : Machine → Prop}
    {keeps : Machine → Machine → Prop}
    (sound : ∀ machine, machine.Sound session.setup.sources → holds machine)
    (grows : ∀ before after, before.heap.Grows after.heap → keeps before after) :
    session.Maintains holds keeps where
  always := (reached.always hosted).weaken fun _ machine regular =>
    ⟨sound machine regular.good.1, grows _ _ regular.good.2⟩
  advances fuel _ _ machine regular :=
    have closes := ((reached.governs hosted session.machine.heap).advances fuel regular).closes
    ⟨sound machine regular.good.1, sound _ closes.good.1, grows _ _ closes.kept⟩
  performs action offered := by
    have trusts : (Regime.sound session.setup session.machine.heap).Trusts session.setup
        fun _ _ => false := fun _ _ stops => by cases stops
    have succeeds := (reached.performs hosted (reached.sound hosted).1 offered trusts).2
    rw [machine_perform]
    exact ⟨sound _ succeeds.sound, grows _ _ succeeds.heap⟩

end Session.Reached

/-! ## Sessions with classes of scripts -/

/-- Options with the classes that scripts describe, and no native methods of a host. -/
def Options.ofScripts (scripts : List ClassScript) (fuel : Nat) : Options where
  sources := match scripts.mapM Builtin.fileOf with
    | .ok files => [.ofClasses files]
    | .error _ => []
  fuel

theorem Session.Reached.hosted_ofScripts {scripts : List ClassScript} {fuel : Nat} :
    Hosted (Options.ofScripts scripts fuel) := by
  intro entry member
  cases (member : entry ∈ [])

/-- A session in which nothing has been done yet. -/
def Session.opened (options : Options) : Session :=
  match Session.start options with
  | .ok session => session
  | .error _ => ⟨⟨[], {}, default, []⟩, 0, {}⟩

theorem Session.start_opened {options : Options} (starts : (Session.start options).isOk = true) :
    Session.start options = .ok (Session.opened options) := by
  unfold Session.opened
  cases started : Session.start options with
  | ok session => rfl
  | error error =>
    rw [started] at starts
    cases starts

/-- The `int` that an action has ended with. -/
def intOf? : Except Error HostValue → Option Int32
  | .ok (.int value) => some value
  | _ => none

theorem eq_ok_of_intOf {result : Except Error HostValue} {value : Int32}
    (ended : intOf? result = some value) : result = .ok (.int value) := by
  cases result with
  | error error => cases ended
  | ok found =>
    cases found with
    | int other => rw [Option.some.inj ended]
    | _ => cases ended

end JavaMachine
