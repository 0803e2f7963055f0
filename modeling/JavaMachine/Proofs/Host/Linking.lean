import JavaMachine.Proofs.Class.FieldSearch
import JavaMachine.Proofs.Host.Storage
import JavaMachine.Proofs.Instruction.Linking

/-! # Links in sessions

Machines of sessions are sound at every moment, and so links can be relied on whatever has happened
before: they are what one would find by looking again (`Session.Reached.linksTransparent`). It is only
where static and other fields of one name are known under one reference that it matters which kind of
access comes first (`levelOfTanks_late`).

What one finds at the first use of a field reference is the first field of its name and type
(`Session.Reached.resolvesFields`), but a field of the same name and another type may hide it
(`wideReading_hidden`). -/

namespace JavaMachine

/-- Links are transparent to all methods in progress: to whatever the instructions of a method find
for a constant of its class. -/
def Machine.LinksTransparent (setup : Setup) (live : List Activation) (machine : Machine) : Prop :=
  ∀ frame, .code frame ∈ live → ∀ (invoke : Invoker) (index : UInt16) (state : StepState),
    state.machine = machine → state.frame.owner = frame.owner →
      Step.Transparent (setup.withInvoker invoke) index state

/-- Where the regime of sound machines is kept, links are transparent. -/
theorem Regime.Regular.transparent_links {setup : Setup} {start : Heap} {live : List Activation}
    {machine : Machine} (regular : (Regime.sound setup start).Regular setup live machine) :
    machine.LinksTransparent setup live := by
  intro frame member invoke index state sameMachine sameOwner
  obtain ⟨_, ⟨defined, -⟩, -⟩ := (regular.hosts frame member).method
  subst sameMachine
  rw [← sameOwner] at defined
  exact Step.transparent regular.good.1 defined index

/-- Whatever a session performs, links are transparent: at every moment, and whenever an instruction
is executed at a regular moment. -/
structure Session.LinksTransparent (session : Session) : Prop where
  always : session.Always fun live machine => machine.LinksTransparent session.setup live
  steps (live : List Activation) (machine : Machine)
    (regular : (Regime.sound session.setup session.machine.heap).Regular session.setup live machine) :
    machine.LinksTransparent session.setup live

namespace Session.Reached

variable {options : Options} {session : Session}

/-- **Links are transparent in every session**: whatever was executed before, a constant stands for
what a first use would find, but for field references that are used for fields of both kinds. -/
theorem linksTransparent (hosted : Hosted options) (reached : Reached options session) :
    session.LinksTransparent where
  always := (reached.always hosted).weaken fun _ _ => Regime.Regular.transparent_links
  steps _ _ := Regime.Regular.transparent_links

theorem linksTransparent_gauges :
    Hosted gaugeOptions ∧ Reached gaugeOptions (gauges.perform takeReadings).2 ∧
      (gauges.perform takeReadings).2.LinksTransparent :=
  ⟨hosted_gauges, reached_gauges, linksTransparent hosted_gauges reached_gauges⟩

end Session.Reached

/-! ## Tanks and their levels -/

/-- Every vessel has a level, and there is one for all tanks. Attendants read both, by one reference. -/
def tankScripts : List ClassScript := [
  ⟨"Vessel", some ClassName.object, [.field Builtin.isPublic "level" "I"]⟩,
  ⟨"Tank", some "Vessel", [.field Builtin.publicStatic "level" "I"]⟩,
  ⟨"Attendant", some ClassName.object, [
    .method Builtin.publicStatic "common" "()I" 0 [
      .field .getStatic "Tank" "level" "I",
      .plain (Opcode.returnValue .int).byte],
    .method Builtin.publicStatic "single" "()I" 0 [
      .classUse .new "Tank",
      .field .getField "Tank" "level" "I",
      .plain (Opcode.returnValue .int).byte]]⟩]

/-- A session in which nothing has been done with tanks yet. -/
@[irreducible] def tanks : Session :=
  Session.opened (Options.ofScripts tankScripts 8)

/-- Has an attendant read a level. -/
def readLevel (which : String) : Exec HostValue := do
  (← Target.named "Attendant" none).call which []

theorem tanks_facts :
    (Session.start (Options.ofScripts tankScripts 8)).isOk = true ∧
      intOf? (tanks.perform (readLevel "common")).1 = some 0 ∧
      intOf? (tanks.perform (readLevel "single")).1 = some 0 ∧
      refusal? ((tanks.perform (readLevel "common")).2.perform (readLevel "single")).1 =
        some (.virtualMachine
          (.instruction ⟨"Attendant", "single"⟩ 3 .instanceAccessToStaticField)) := by
  decide +kernel

theorem reached_tanks : Session.Reached (Options.ofScripts tankScripts 8) tanks := by
  unfold tanks
  exact .started (Session.start_opened tanks_facts.1)

/-- **A field reference serves fields of one kind only**: the level of a single tank can be read,
but not once the level of all tanks has been. -/
theorem levelOfTanks_late :
    Session.Reached (Options.ofScripts tankScripts 8) tanks ∧
      (tanks.perform (readLevel "single")).1 = .ok (.int 0) ∧
      (tanks.perform (readLevel "common")).1 = .ok (.int 0) ∧
      ((tanks.perform (readLevel "common")).2.perform (readLevel "single")).1 =
        .error (.virtualMachine
          (.instruction ⟨"Attendant", "single"⟩ 3 .instanceAccessToStaticField)) :=
  ⟨reached_tanks, eq_ok_of_intOf tanks_facts.2.2.1, eq_ok_of_intOf tanks_facts.2.1,
    eq_error_of_refusal tanks_facts.2.2.2⟩

/-! ## Fields -/

/-- At its first use in a method in progress, a reference to a field of a loaded class is linked to
the first field of its name and type, unless that is hidden. -/
def Machine.ResolvesFields (setup : Setup) (live : List Activation) (machine : Machine) : Prop :=
  ∀ frame, .code frame ∈ live → ∀ (invoke : Invoker) (index : UInt16) (state : StepState)
    (symbol : FieldSymbol) (c : LinkedClass), state.machine = machine →
      state.frame.owner = frame.owner →
      state.frame.owner.constant? index = some (.fieldref symbol) → Step.Unresolved index state →
      machine.loaded.lookup symbol.owner = some c →
    symbol.Picks c c.staticFieldsInReach (fun found => .staticField found.1 found.2.slot)
        (answer (Step.linked index symbol.owner symbol.findStatic (setup.withInvoker invoke) state)) ∧
      symbol.Picks c c.instanceFieldsInReach (fun found => .instanceField found.2.slot)
        (answer (Step.linked index symbol.owner symbol.findInstance (setup.withInvoker invoke) state))

theorem Regime.Regular.fields_resolved {setup : Setup} {start : Heap} {live : List Activation}
    {machine : Machine} (bare : ∀ root, Loader.Defines setup.sources root →
      root.name = ClassName.object → root.instanceFields = [])
    (regular : (Regime.sound setup start).Regular setup live machine) :
    machine.ResolvesFields setup live := by
  intro frame member invoke index state symbol c sameMachine sameOwner constant unresolved loaded
  obtain ⟨_, ⟨defined, -⟩, -⟩ := (regular.hosts frame member).method
  subst sameMachine
  rw [← sameOwner] at defined
  have uses : Step.Uses (setup.withInvoker invoke) index (.fieldref symbol) state :=
    ⟨regular.good.1, defined, constant⟩
  obtain ⟨-, cDefined, -⟩ := regular.good.1.loaded _ _ loaded
  rw [uses.answer_linked rfl unresolved loaded, uses.answer_linked rfl unresolved loaded]
  exact ⟨symbol.picks_findStatic c, symbol.picks_findInstance bare cDefined⟩

/-- Whatever a session performs, field references are resolved by name and type: at every moment, and
whenever an instruction is executed at a regular moment. -/
structure Session.ResolvesFields (session : Session) : Prop where
  always : session.Always fun live machine => machine.ResolvesFields session.setup live
  steps (live : List Activation) (machine : Machine)
    (regular : (Regime.sound session.setup session.machine.heap).Regular session.setup live machine) :
    machine.ResolvesFields session.setup live

namespace Session.Reached

variable {options : Options} {session : Session}

/-- **Field references are resolved by name and type in every session**, but for fields that are
hidden by one of the same name and another type. -/
theorem resolvesFields (hosted : Hosted options) (reached : Reached options session) :
    session.ResolvesFields := by
  have bare (root : LinkedClass) (defined : Loader.Defines session.setup.sources root)
      (named : root.name = ClassName.object) : root.instanceFields = [] := by
    obtain ⟨builtin, built, sources⟩ := reached.sources_eq
    rw [sources] at defined
    exact defined.instanceFields_root built named
  exact {
    always := (reached.always hosted).weaken fun _ _ => Regime.Regular.fields_resolved bare
    steps _ _ := Regime.Regular.fields_resolved bare }

theorem resolvesFields_gauges :
    Hosted gaugeOptions ∧ Reached gaugeOptions (gauges.perform takeReadings).2 ∧
      (gauges.perform takeReadings).2.ResolvesFields :=
  ⟨hosted_gauges, reached_gauges, resolvesFields hosted_gauges reached_gauges⟩

end Session.Reached

/-! ## Readings of two widths -/

/-- A meter has two readings of one name, and a method for each. -/
def meterScripts : List ClassScript := [
  ⟨"Meter", some ClassName.object, [
    .field Builtin.publicStatic "reading" "I",
    .field Builtin.publicStatic "reading" "J",
    .method Builtin.publicStatic "narrow" "()I" 0 [
      .field .getStatic "Meter" "reading" "I",
      .plain (Opcode.returnValue .int).byte],
    .method Builtin.publicStatic "wide" "()J" 0 [
      .field .getStatic "Meter" "reading" "J",
      .plain (Opcode.returnValue .long).byte]]⟩]

/-- A session in which nothing has been done with meters yet. -/
@[irreducible] def meters : Session :=
  Session.opened (Options.ofScripts meterScripts 8)

/-- Has a meter read. -/
def readMeter (which : String) : Exec HostValue := do
  (← Target.named "Meter" none).call which []

/-- The static fields of a meter. -/
def meterFields (machine : Machine) : Option (List (String × FieldType)) :=
  (machine.loaded.lookup "Meter").map fun c =>
    c.staticFields.map fun field => (field.name, field.type)

theorem meters_facts :
    (Session.start (Options.ofScripts meterScripts 8)).isOk = true ∧
      meterFields (meters.perform (readMeter "narrow")).2.machine =
        some [("reading", .int), ("reading", .long)] ∧
      intOf? (meters.perform (readMeter "narrow")).1 = some 0 ∧
      refusal? ((meters.perform (readMeter "narrow")).2.perform (readMeter "wide")).1 =
        some (.noSuchField "Meter" "reading:J") := by
  decide +kernel

theorem reached_meters :
    Session.Reached (Options.ofScripts meterScripts 8) (meters.perform (readMeter "narrow")).2 := by
  unfold meters
  exact .performed (.started (Session.start_opened meters_facts.1)) (.call "Meter" none "narrow" [])

/-- **A field may be hidden by another one of its class**: the wide reading of a meter is there, but
its reference cannot be resolved since the narrow one comes first. -/
theorem wideReading_hidden :
    ∃ c, Session.Reached (Options.ofScripts meterScripts 8)
        (meters.perform (readMeter "narrow")).2 ∧
      (meters.perform (readMeter "narrow")).2.machine.loaded.lookup "Meter" = some c ∧
      (∃ field ∈ c.staticFields, field.name = "reading" ∧ field.type = .long) ∧
      ((meters.perform (readMeter "narrow")).2.perform (readMeter "wide")).1 =
        .error (.noSuchField "Meter" "reading:J") := by
  obtain ⟨-, fields, -, refused⟩ := meters_facts
  obtain ⟨c, found, listed⟩ := Option.map_eq_some_iff.mp fields
  have wide : ("reading", FieldType.long) ∈ c.staticFields.map fun field =>
      (field.name, field.type) := listed ▸ List.mem_cons_of_mem _ List.mem_cons_self
  obtain ⟨field, member, same⟩ := List.mem_map.mp wide
  obtain ⟨named, typed⟩ := Prod.mk.inj same
  exact ⟨c, reached_meters, found, ⟨field, member, named, typed⟩, eq_error_of_refusal refused⟩

end JavaMachine
