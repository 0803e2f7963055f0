import JavaMachine.Proofs.Class.Ancestry
import JavaMachine.Proofs.Class.History
import JavaMachine.Proofs.Execution.Equivalence
import JavaMachine.Proofs.Instruction.Place

/-! # Where a throwable is handled

A throwable is handled in the innermost frame that has a handler for it, by the first such handler
in the order of its table (`Execution.unwind_of_handles`); if there is none, it is thrown out of the
chain (`Execution.unwind_of_passes`). -/

namespace JavaMachine

open Relation (ReflTransGen)

/-! ## Handlers -/

section Handlers

variable (sources : List ClassSource)

/-- A handler handles what a class of throwables throws at an offset: the offset is in its range,
and its catch type, if it has one, is the name of an ancestor of the class. -/
structure Handler.Handles (handler : Handler) (thrown : LinkedClass) (pc : Nat) : Prop where
  range : handler.start ≤ pc ∧ pc < handler.stop
  type : handler.catchType = none ∨ ∃ ancestor, Loader.Defines sources ancestor ∧
    thrown.Descends ancestor ∧ handler.catchType = some ancestor.name

/-- A handler is the first one in the table of a frame that handles what a class throws there. -/
def Frame.Handles (frame : Frame) (thrown : LinkedClass) (handler : Handler) : Prop :=
  ∃ before after, frame.code.handlers = before ++ handler :: after ∧
    (∀ earlier ∈ before, ¬ earlier.Handles sources thrown frame.pc) ∧
    handler.Handles sources thrown frame.pc

/-- No handler of a frame handles what a class throws there. -/
def Frame.Passes (frame : Frame) (thrown : LinkedClass) : Prop :=
  ∀ handler ∈ frame.code.handlers, ¬ handler.Handles sources thrown frame.pc

/-- A frame handles what a class throws, or passes it on. -/
theorem Frame.handles_or_passes (frame : Frame) (thrown : LinkedClass) :
    (∃ handler, frame.Handles sources thrown handler) ∨ frame.Passes sources thrown := by
  classical
  unfold Frame.Handles Frame.Passes
  induction frame.code.handlers with
  | nil => exact .inr nofun
  | cons first rest ih =>
    by_cases handles : first.Handles sources thrown frame.pc
    · exact .inl ⟨first, [], rest, rfl, nofun, handles⟩
    · rcases ih with ⟨handler, before, after, rfl, passed, found⟩ | passed
      · exact .inl ⟨handler, first :: before, after, rfl,
          List.forall_mem_cons.mpr ⟨handles, passed⟩, found⟩
      · exact .inr (List.forall_mem_cons.mpr ⟨handles, passed⟩)

/-- Among any frames there is a first one that handles what a class throws, or all pass it on. -/
theorem Frame.exists_first_or_passes (frames : List Frame) (thrown : LinkedClass) :
    (∃ inner handling outer handler, frames = inner ++ handling :: outer ∧
      (∀ passed ∈ inner, passed.Passes sources thrown) ∧
      handling.Handles sources thrown handler) ∨
    ∀ passed ∈ frames, passed.Passes sources thrown := by
  induction frames with
  | nil => exact .inr nofun
  | cons frame rest ih =>
    rcases frame.handles_or_passes sources thrown with ⟨handler, handles⟩ | passes
    · exact .inl ⟨[], frame, rest, handler, rfl, nofun, handles⟩
    · rcases ih with ⟨inner, handling, outer, handler, rfl, passed, handles⟩ | passed
      · exact .inl ⟨frame :: inner, handling, outer, handler, rfl,
          List.forall_mem_cons.mpr ⟨passes, passed⟩, handles⟩
      · exact .inr (List.forall_mem_cons.mpr ⟨passes, passed⟩)

end Handlers

/-! ## Classes at hand -/

/-- The built-in classes come first, and each source of the host has no more classes than it
says. -/
structure Services.Sourced (services : Services) : Prop where
  builtin : ∃ builtin rest, Builtin.source = .ok builtin ∧ services.sources = builtin :: rest
  hosts (lookup : String → Except Error (Option (List UInt8))) (size : Nat)
    (member : .host lookup size ∈ services.sources) : (ClassSource.host lookup size).Bounded

/-- Classes that are loaded after others, which are kept. -/
structure Services.Loads (services : Services) (before after : LoadedClasses) : Prop where
  kept (name : String) (c : LinkedClass) (found : before.lookup name = some c) :
    after.lookup name = some c
  reachable : Loader.Reachable services.sources after

section Loads

variable {services : Services} {machine : Machine} {before middle after : LoadedClasses}

theorem Services.Loads.refl (reachable : Loader.Reachable services.sources before) :
    services.Loads before before :=
  ⟨fun _ _ => id, reachable⟩

theorem Services.Loads.trans (near : services.Loads before middle)
    (far : services.Loads middle after) : services.Loads before after :=
  ⟨fun name c found => far.kept name c (near.kept name c found), far.reachable⟩

theorem exists_of_outcome {σ : Type} {result : EStateM.Result Error σ LinkedClass} {c : LinkedClass}
    (given : Loader.outcome result = .ok c) : ∃ after, result = .ok c after := by
  cases result with
  | ok given' after =>
    cases given
    exact ⟨after, rfl⟩
  | error error after => cases given

/-- The class that the sources define under a name is what its load gives. -/
theorem Exec.load_of_defines (sourced : services.Sourced)
    (reachable : Loader.Reachable services.sources machine.loaded) {c : LinkedClass}
    (defined : Loader.Defines services.sources c) :
    ∃ loaded, services.Loads machine.loaded loaded ∧
      Exec.load c.name services machine = .ok c { machine with loaded } := by
  obtain ⟨loaded, ended⟩ := exists_of_outcome
    (reachable.sound.outcome_eq_ok (ClassSource.bounded_of_hosts sourced.hosts) defined)
  have kept := (reachable.sound.after_load c.name).1 c loaded ended
  refine ⟨loaded, ⟨fun name d => kept.2.1.lookup, .loaded reachable ended⟩, ?_⟩
  unfold Exec.load
  rw [ended]

end Loads

namespace Execution

/-! ## One table -/

section Table

variable {services : Services} {machine : Machine} {thrown : LinkedClass} {pc : Nat}
  {handler : Handler} {rest before : List Handler} (sourced : services.Sourced)
  (defined : Loader.Defines services.sources thrown)

/-- The catch types of handlers can be loaded. -/
def Loadable (services : Services) (handlers : List Handler) : Prop :=
  ∀ handler ∈ handlers, ∀ name ∈ handler.catchType,
    ∃ c, Loader.Defines services.sources c ∧ c.name = name

theorem covers_iff : handler.covers pc = true ↔ handler.start ≤ pc ∧ pc < handler.stop := by
  unfold Handler.covers
  rw [Bool.and_eq_true, decide_eq_true_eq, decide_eq_true_eq]

include sourced defined

theorem assignable_iff {c : LinkedClass} (caught : Loader.Defines services.sources c)
    (named : handler.catchType = some c.name) (range : handler.covers pc = true) :
    thrown.isAssignableTo c = true ↔ handler.Handles services.sources thrown pc := by
  have descent : thrown.isAssignableTo c = true ↔ thrown.Descends c := by
    obtain ⟨builtin, others, built, sources⟩ := sourced.builtin
    rw [sources] at defined caught
    exact defined.isAssignableTo_iff (fun root defined => defined.extensible_root built) caught
  rw [descent]
  constructor
  · exact fun descends => ⟨covers_iff.mp range, .inr ⟨c, caught, descends, named⟩⟩
  · rintro ⟨-, none | ⟨ancestor, ancestorDefined, descends, same⟩⟩
    · cases named.symm.trans none
    · have same := Option.some.inj (same.symm.trans named)
      exact ancestorDefined.eq_of_name_eq caught same ▸ descends

variable (machine rest) in
/-- A handler of a table is passed over, or what is thrown is handled by it. -/
theorem findHandler_cons (reachable : Loader.Reachable services.sources machine.loaded)
    (loadable : ∀ name ∈ handler.catchType,
      ∃ c, Loader.Defines services.sources c ∧ c.name = name) :
    ∃ loaded, services.Loads machine.loaded loaded ∧
      (handler.Handles services.sources thrown pc →
        findHandler pc thrown (handler :: rest) services machine =
          .ok (some handler.target) { machine with loaded }) ∧
      (¬ handler.Handles services.sources thrown pc →
        findHandler pc thrown (handler :: rest) services machine =
          findHandler pc thrown rest services { machine with loaded }) := by
  rw [findHandler]
  cases range : handler.covers pc with
  | false =>
    refine ⟨machine.loaded, .refl reachable, fun handles => ?_, fun _ => rfl⟩
    rw [covers_iff.mpr handles.range] at range
    cases range
  | true =>
    cases catchType : handler.catchType with
    | none =>
      refine ⟨machine.loaded, .refl reachable, fun _ => rfl, fun passes => ?_⟩
      exact absurd ⟨covers_iff.mp range, .inl catchType⟩ passes
    | some name =>
      obtain ⟨c, caught, rfl⟩ := loadable name catchType
      obtain ⟨loaded, loads, ended⟩ := Exec.load_of_defines sourced reachable caught
      have check := assignable_iff sourced defined caught catchType range
      have unfolded : (Exec.load c.name >>= fun caught =>
          if thrown.isAssignableTo caught then pure (some handler.target)
          else findHandler pc thrown rest) services machine =
          (if thrown.isAssignableTo c then pure (some handler.target)
            else findHandler pc thrown rest : Exec (Option Nat)) services { machine with loaded } :=
        Operation.bind_of_ok ended
      refine ⟨loaded, loads, fun handles => ?_, fun passes => ?_⟩
      · refine unfolded.trans ?_
        rw [if_pos (check.mpr handles)]
        rfl
      · refine unfolded.trans ?_
        rw [if_neg (mt check.mp passes)]

variable (rest) in
theorem findHandler_append (reachable : Loader.Reachable services.sources machine.loaded)
    (loadable : Loadable services before)
    (passed : ∀ earlier ∈ before, ¬ earlier.Handles services.sources thrown pc) :
    ∃ loaded, services.Loads machine.loaded loaded ∧
      findHandler pc thrown (before ++ rest) services machine =
        findHandler pc thrown rest services { machine with loaded } := by
  induction before generalizing machine with
  | nil => exact ⟨machine.loaded, .refl reachable, rfl⟩
  | cons first others ih =>
    obtain ⟨firstLoadable, othersLoadable⟩ := List.forall_mem_cons.mp loadable
    obtain ⟨firstPassed, othersPassed⟩ := List.forall_mem_cons.mp passed
    obtain ⟨middle, near, -, skip⟩ :=
      findHandler_cons machine (others ++ rest) sourced defined reachable firstLoadable
    obtain ⟨loaded, far, ended⟩ :=
      @ih { machine with loaded := middle } near.reachable othersLoadable othersPassed
    exact ⟨loaded, near.trans far, (skip firstPassed).trans ended⟩

end Table

/-! ## A chain -/

section Frames

variable {services : Services} {machine : Machine} {exception : Ref} {thrown : LinkedClass}
  {frame handling : Frame} {callers inner outer : List Frame} {handler : Handler}
  (sourced : services.Sourced) (defined : Loader.Defines services.sources thrown)

/-- A frame that goes on at a handler keeps its locals and holds the throwable only. -/
def caught (frame : Frame) (handler : Handler) (exception : Ref) : Frame :=
  { frame with stack := #[.reference (some exception)], pc := handler.target }

theorem catchAt_of_room (room : 1 ≤ frame.code.maxStack) :
    Frame.catchAt handler.target exception frame = .ok () (caught frame handler exception) := by
  have fits : ¬ (0 ≥ frame.code.maxStack) := Nat.not_le.mpr room
  unfold Frame.catchAt Frame.push Frame.pushSlot
  simp only [Bind.bind, EStateM.bind, modify, modifyGet, MonadStateOf.modifyGet,
    EStateM.modifyGet, get, getThe, MonadStateOf.get, EStateM.get, List.size_toArray,
    List.length_nil, if_neg fits]
  rfl

theorem onFrame_catchAt (room : 1 ≤ frame.code.maxStack) :
    onFrame (Frame.catchAt handler.target exception) frame =
      pure (caught frame handler exception) := by
  unfold onFrame
  rw [catchAt_of_room room]

include sourced defined

/-- A frame that passes a throwable on ends. -/
theorem offering_of_passes {α : Type} {found : Frame → Exec α} {ended : Exec α}
    (reachable : Loader.Reachable services.sources machine.loaded)
    (type : (machine.heap.get exception).type = thrown)
    (loadable : Loadable services frame.code.handlers)
    (passes : frame.Passes services.sources thrown) :
    ∃ loaded, services.Loads machine.loaded loaded ∧
      Chain.offering exception frame found ended services machine =
        ended services { machine with loaded, depth := machine.depth - 1 } := by
  obtain ⟨loaded, loads, search⟩ :=
    findHandler_append [] sourced defined reachable loadable passes
  rw [List.append_nil] at search
  refine ⟨loaded, loads, ?_⟩
  have object : Exec.object exception services machine = .ok (machine.heap.get exception) machine :=
    rfl
  unfold Chain.offering
  rw [Operation.bind_of_ok object, type, Operation.bind_of_ok search]
  rfl

/-- A frame that handles a throwable goes on with it. -/
theorem offering_of_handles {α : Type} {found : Frame → Exec α} {ended : Exec α}
    (reachable : Loader.Reachable services.sources machine.loaded)
    (type : (machine.heap.get exception).type = thrown)
    (loadable : Loadable services frame.code.handlers)
    (handles : frame.Handles services.sources thrown handler) (room : 1 ≤ frame.code.maxStack) :
    ∃ loaded, services.Loads machine.loaded loaded ∧
      Chain.offering exception frame found ended services machine =
        found (caught frame handler exception) services { machine with loaded } := by
  obtain ⟨before, rest, table, passed, handles⟩ := handles
  rw [table] at loadable
  obtain ⟨beforeLoadable, restLoadable⟩ := List.forall_mem_append.mp loadable
  obtain ⟨middle, near, search⟩ :=
    findHandler_append (handler :: rest) sourced defined reachable beforeLoadable passed
  obtain ⟨loaded, far, hit, -⟩ := findHandler_cons { machine with loaded := middle } rest sourced
    defined near.reachable (List.forall_mem_cons.mp restLoadable).1
  have target := search.trans (hit handles)
  rw [← table] at target
  refine ⟨loaded, near.trans far, ?_⟩
  have object : Exec.object exception services machine = .ok (machine.heap.get exception) machine :=
    rfl
  unfold Chain.offering
  rw [Operation.bind_of_ok object, type, Operation.bind_of_ok target]
  dsimp only
  rw [onFrame_catchAt room]
  rfl

omit sourced defined in
/-- A throwable is offered to the innermost frame first. -/
theorem unwind_eq_offering (exception : Ref) (frame : Frame) (callers : List Frame) :
    ∃ ended, unwind exception frame callers =
      Chain.offering exception frame (fun frame => return ⟨frame, callers⟩) ended := by
  cases callers with
  | nil => exact ⟨_, Chain.unwind_nil exception frame⟩
  | cons caller rest => exact ⟨_, Chain.unwind_cons exception frame caller rest⟩

theorem unwind_of_passes (reachable : Loader.Reachable services.sources machine.loaded)
    (type : (machine.heap.get exception).type = thrown)
    (loadable : ∀ each ∈ frame :: callers, Loadable services each.code.handlers)
    (passes : ∀ passed ∈ frame :: callers, passed.Passes services.sources thrown) :
    ∃ loaded, services.Loads machine.loaded loaded ∧
      unwind exception frame callers services machine = .error (.thrown exception)
        { machine with loaded, depth := machine.depth - (callers.length + 1) } := by
  induction callers generalizing frame machine with
  | nil =>
    rw [Chain.unwind_nil]
    exact offering_of_passes sourced defined reachable type (loadable frame List.mem_cons_self)
      (passes frame List.mem_cons_self)
  | cons caller rest ih =>
    obtain ⟨frameLoadable, restLoadable⟩ := List.forall_mem_cons.mp loadable
    obtain ⟨framePasses, restPass⟩ := List.forall_mem_cons.mp passes
    rw [Chain.unwind_cons]
    obtain ⟨middle, near, passed⟩ :=
      offering_of_passes sourced defined reachable type frameLoadable framePasses
    obtain ⟨loaded, far, ended⟩ :=
      @ih { machine with loaded := middle, depth := machine.depth - 1 } caller near.reachable
        type restLoadable restPass
    refine ⟨loaded, near.trans far, passed.trans (ended.trans ?_)⟩
    rw [List.length_cons, Nat.sub_sub, Nat.add_comm 1]

theorem unwind_of_handles (reachable : Loader.Reachable services.sources machine.loaded)
    (type : (machine.heap.get exception).type = thrown)
    (loadable : ∀ each ∈ frame :: callers, Loadable services each.code.handlers)
    (frames : frame :: callers = inner ++ handling :: outer)
    (passes : ∀ passed ∈ inner, passed.Passes services.sources thrown)
    (handles : handling.Handles services.sources thrown handler)
    (room : 1 ≤ handling.code.maxStack) :
    ∃ loaded, services.Loads machine.loaded loaded ∧
      unwind exception frame callers services machine =
        .ok ⟨caught handling handler exception, outer⟩
          { machine with loaded, depth := machine.depth - inner.length } := by
  induction inner generalizing frame callers machine with
  | nil =>
    obtain ⟨rfl, rfl⟩ := List.cons.inj frames
    obtain ⟨ended, unwinds⟩ := unwind_eq_offering exception frame callers
    rw [unwinds]
    exact offering_of_handles sourced defined reachable type (loadable frame List.mem_cons_self)
      handles room
  | cons first others ih =>
    obtain ⟨rfl, split⟩ := List.cons.inj frames
    obtain ⟨frameLoadable, restLoadable⟩ := List.forall_mem_cons.mp loadable
    obtain ⟨framePasses, othersPass⟩ := List.forall_mem_cons.mp passes
    obtain ⟨caller, rest, rfl⟩ := List.exists_cons_of_ne_nil
      (split.trans_ne (List.append_ne_nil_of_right_ne_nil _ (List.cons_ne_nil _ _)))
    rw [Chain.unwind_cons]
    obtain ⟨middle, near, passed⟩ :=
      offering_of_passes sourced defined reachable type frameLoadable framePasses
    obtain ⟨loaded, far, ended⟩ :=
      @ih { machine with loaded := middle, depth := machine.depth - 1 } caller rest near.reachable
        type restLoadable split othersPass
    refine ⟨loaded, near.trans far, passed.trans (ended.trans ?_)⟩
    rw [List.length_cons, Nat.sub_sub, Nat.add_comm 1]

end Frames

/-- A machine in which an object is thrown inside some frames: its class is one of those that are
loaded, and so can be the catch types of all handlers. -/
structure Throws (services : Services) (machine : Machine) (exception : Ref)
    (frames : List Frame) : Prop where
  reachable : Loader.Reachable services.sources machine.loaded
  thrown : machine.loaded.lookup (machine.heap.get exception).type.name =
    some (machine.heap.get exception).type
  loadable : ∀ frame ∈ frames, ∀ handler ∈ frame.code.handlers, ∀ name ∈ handler.catchType,
    ∃ c loaded, Loader.load services.sources name machine.loaded = .ok c loaded

end Execution

end JavaMachine
