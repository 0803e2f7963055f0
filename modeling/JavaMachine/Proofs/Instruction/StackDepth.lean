import JavaMachine.Proofs.Execution.Arguments
import JavaMachine.Proofs.Execution.Throwables
import JavaMachine.Proofs.Host.Fields
import JavaMachine.Proofs.Instruction.Range

/-! # The depth of the operand stack

How parts of instructions change the depth of the operand stack. A part either takes slots off the
stack, and may then go on with what it has taken (`Step.Draws`), or is known by what it does to the
depth of the stack as a whole (`Step.Moves`, `Step.Effect`). Only a part that puts slots on the stack
can find it full, and throwing never does (`Step.fails_throwNew`). -/

namespace JavaMachine

open Operation (bind_of_ok bind_of_error exists_of_bind_ok)

/-- The error of an operand stack that is full. -/
def Error.IsOverflow (error : Error) : Prop :=
  ∃ site limit, error = .virtualMachine (.stackOverflow site limit)

/-! ## Operations on frames -/

namespace Frame

variable {α β : Type} {n m : Nat} {gives : α → Prop} {wanted : β → Prop} {operation : FrameM α}

/-- A stack of whole values: a filler follows each wide one and stands nowhere else. -/
def InSlotForm (frame : Frame) : Prop :=
  ∃ values : List Value, .top ∉ values ∧ frame.stack.toList = Value.toSlots values

/-- An operation that takes so many slots off the stack, if it has an end, and never finds the stack
full. -/
def Draws (n : Nat) (gives : α → Prop) (operation : FrameM α) : Prop :=
  ∀ frame,
    (∀ value after, operation frame = .ok value after →
      gives value ∧ after.code = frame.code ∧ after.depth + n = frame.depth) ∧
    ∀ error after, operation frame = .error error after → ¬ error.IsOverflow

theorem draws_pure {value : α} (given : gives value) : Draws 0 gives (pure value) := by
  refine fun frame => ⟨fun _ _ ended => ?_, fun _ _ => nofun⟩
  cases ended
  exact ⟨given, rfl, rfl⟩

theorem Draws.bind {next : α → FrameM β} (first : Draws n gives operation)
    (rest : ∀ value, gives value → Draws m wanted (next value)) :
    Draws (n + m) wanted (operation >>= next) := by
  intro frame
  obtain ⟨completes, fails⟩ := first frame
  simp only [Bind.bind, EStateM.bind]
  cases ended : operation frame with
  | error error after => exact ⟨fun _ _ => nofun, fun _ _ same => by cases same; exact fails _ _ ended⟩
  | ok value between =>
    obtain ⟨given, code, depth⟩ := completes value between ended
    obtain ⟨completesRest, failsRest⟩ := rest value given between
    refine ⟨fun other after ended => ?_, failsRest⟩
    obtain ⟨givenRest, codeRest, depthRest⟩ := completesRest other after ended
    exact ⟨givenRest, codeRest.trans code, by omega⟩

theorem draws_mismatch {expected : Option ValueKind} {found : Value} :
    Draws n gives (mismatch expected found) :=
  fun _ => ⟨fun _ _ => nofun, fun _ _ ended => by cases ended; exact nofun⟩

theorem popSlot_eq (frame : Frame) : popSlot frame =
    if frame.stack.size = 0 then .error (.virtualMachine (.stackUnderflow frame.site)) frame
    else .ok (frame.stack.back?.getD default) { frame with stack := frame.stack.pop } := by
  unfold popSlot
  simp only [Bind.bind, EStateM.bind, get, getThe, MonadStateOf.get, EStateM.get]
  cases last : frame.stack.back? with
  | none =>
    rw [if_pos (by simpa using last)]
    rfl
  | some value =>
    have some : frame.stack.size ≠ 0 := fun none => by simp_all
    rw [if_neg some]
    rfl

theorem draws_popSlot : Draws 1 anything popSlot := by
  intro frame
  rw [popSlot_eq]
  split
  · exact ⟨fun _ _ => nofun, fun _ _ ended => by cases ended; exact nofun⟩
  · next some =>
    refine ⟨fun _ _ ended => ?_, fun _ _ => nofun⟩
    cases ended
    refine ⟨trivial, rfl, ?_⟩
    simp only [depth, Array.size_pop]
    omega

theorem draws_popSlots (count : Nat) : Draws count (·.length = count) (popSlots count) := by
  intro frame
  unfold popSlots
  simp only [Bind.bind, EStateM.bind, get, getThe, MonadStateOf.get, EStateM.get]
  split
  · exact ⟨fun _ _ => nofun, fun _ _ ended => by cases ended; exact nofun⟩
  · next enough =>
    refine ⟨fun _ _ ended => ?_, fun _ _ => nofun⟩
    cases ended
    refine ⟨?_, rfl, ?_⟩
    · rw [Array.length_toList, Array.size_extract]
      omega
    · simp only [depth, Array.size_shrink]
      omega

theorem draws_popFiller : Draws 1 anything popFiller := by
  refine Draws.bind (m := 0) draws_popSlot fun value _ => ?_
  split
  · exact draws_pure trivial
  · exact draws_mismatch

theorem draws_popInt : Draws 1 anything popInt := by
  refine Draws.bind (m := 0) draws_popSlot fun value _ => ?_
  split
  · exact draws_pure trivial
  · exact draws_mismatch

theorem draws_popFloat : Draws 1 anything popFloat := by
  refine Draws.bind (m := 0) draws_popSlot fun value _ => ?_
  split
  · exact draws_pure trivial
  · exact draws_mismatch

theorem draws_popReference : Draws 1 anything popReference := by
  refine Draws.bind (m := 0) draws_popSlot fun value _ => ?_
  split
  · exact draws_pure trivial
  · exact draws_mismatch

theorem draws_popLong : Draws 2 anything popLong := by
  refine Draws.bind (m := 1) draws_popFiller fun _ _ => Draws.bind (m := 0) draws_popSlot fun value _ => ?_
  split
  · exact draws_pure trivial
  · exact draws_mismatch

theorem draws_popDouble : Draws 2 anything popDouble := by
  refine Draws.bind (m := 1) draws_popFiller fun _ _ => Draws.bind (m := 0) draws_popSlot fun value _ => ?_
  split
  · exact draws_pure trivial
  · exact draws_mismatch

theorem draws_get : Draws 0 anything get := by
  refine fun frame => ⟨fun _ _ ended => ?_, fun _ _ => nofun⟩
  cases ended
  exact ⟨trivial, rfl, rfl⟩

theorem draws_fail {fault : Frame → MachineFault}
    (proper : ∀ frame, ¬ (Error.virtualMachine (fault frame)).IsOverflow) :
    Draws n gives (fail fault) := by
  refine fun frame => ⟨fun _ _ => nofun, fun _ _ ended => ?_⟩
  cases ended
  exact proper frame

/-- The locals may change. -/
theorem draws_modifyLocals (change : Frame → Array Value) :
    Draws 0 anything (modify fun frame => { frame with locals := change frame }) := by
  refine fun frame => ⟨fun _ _ ended => ?_, fun _ _ => nofun⟩
  cases ended
  exact ⟨trivial, rfl, rfl⟩

theorem not_isOverflow_localOutOfRange (site : Site) (index size : Nat) :
    ¬ (Error.virtualMachine (.localOutOfRange site index size)).IsOverflow := by
  rintro ⟨_, _, same⟩
  cases same

theorem draws_getLocal (index : Nat) : Draws 0 anything (getLocal index) := by
  refine Draws.bind (m := 0) draws_get fun frame _ => ?_
  split
  · exact draws_pure trivial
  · exact draws_fail fun _ => not_isOverflow_localOutOfRange _ _ _

theorem draws_setLocal (index : Nat) (value : Value) : Draws 0 anything (setLocal index value) := by
  refine Draws.bind (m := 0) draws_get fun frame _ => ?_
  dsimp only
  split
  · split
    · exact draws_fail fun _ => not_isOverflow_localOutOfRange _ _ _
    · exact (draws_modifyLocals _).bind (m := 0) fun _ _ => draws_modifyLocals _
  · split
    · exact draws_fail fun _ => not_isOverflow_localOutOfRange _ _ _
    · exact draws_modifyLocals _

/-- An operation that puts so many slots on the stack; it fails only if there is no room for them. -/
def Adds (n : Nat) (operation : FrameM Unit) : Prop :=
  ∀ frame,
    (∀ after, operation frame = .ok () after →
      after.code = frame.code ∧ after.depth = frame.depth + n) ∧
    ∀ error after, operation frame = .error error after → frame.code.maxStack < frame.depth + n

theorem adds_pure : Adds 0 (pure ()) := by
  refine fun frame => ⟨fun _ ended => ?_, fun _ _ => nofun⟩
  cases ended
  exact ⟨rfl, rfl⟩

theorem Adds.bind {operation next : FrameM Unit} (first : Adds n operation) (rest : Adds m next) :
    Adds (n + m) (do operation; next) := by
  intro frame
  obtain ⟨completes, fails⟩ := first frame
  simp only [Bind.bind, EStateM.bind]
  cases ended : operation frame with
  | error error after =>
    exact ⟨fun _ => nofun, fun _ _ _ => (fails error after ended).trans_le (by omega)⟩
  | ok value between =>
    obtain ⟨code, depth⟩ := completes between ended
    obtain ⟨completesRest, failsRest⟩ := rest between
    refine ⟨fun after ended => ?_, fun error after ended => ?_⟩
    · obtain ⟨codeRest, depthRest⟩ := completesRest after ended
      exact ⟨codeRest.trans code, by omega⟩
    · have full := failsRest error after ended
      rw [code] at full
      omega

theorem adds_pushSlot (value : Value) : Adds 1 (pushSlot value) := by
  intro frame
  rw [pushSlot_eq]
  split
  · next full => exact ⟨fun _ => nofun, fun _ _ _ => Nat.lt_succ_of_le full⟩
  · refine ⟨fun _ ended => ?_, fun _ _ => nofun⟩
    cases ended
    exact ⟨rfl, Array.size_push ..⟩

theorem adds_push (value : Value) : Adds (Value.toSlots [value]).length (push value) := by
  rw [Value.toSlots, List.flatMap_singleton]
  unfold push
  by_cases wide : value.isWide = true
  · rw [if_pos wide, if_pos wide]
    exact (adds_pushSlot value).bind (adds_pushSlot .top)
  · rw [if_neg wide, if_neg wide]
    exact (adds_pushSlot value).bind adds_pure

end Frame

/-! ## Parts of instructions -/

namespace Step

variable {α β : Type} {services : Services} {machine : Machine} {n pop push : Nat} {gives : α → Prop}

/-- A part of an instruction that takes so many slots off the stack, if it has an end, leaves the
machine alone and never finds the stack full. -/
def Draws (services : Services) (machine : Machine) (n : Nat) (gives : α → Prop) (action : Step α) :
    Prop :=
  ∀ frame cursor,
    (∀ value after, action services ⟨machine, frame, cursor⟩ = .ok value after →
      gives value ∧ after.machine = machine ∧ after.frame.code = frame.code ∧
        after.frame.depth + n = frame.depth) ∧
    ∀ error after, action services ⟨machine, frame, cursor⟩ = .error (.fatal error) after →
      ¬ error.IsOverflow

/-- What has begun with a frame has taken so many slots off the stack and put others on it when it
completes; it finds the stack full only if there is no room for the slots before or after it. -/
structure Moves (pop push : Nat) (frame : Frame)
    (result : EStateM.Result Interruption StepState α) : Prop where
  completes (value : α) (after : StepState) (ended : result = .ok value after) :
    pop ≤ frame.depth ∧ after.frame.depth + pop = frame.depth + push
  overflows (error : Error) (after : StepState) (ended : result = .error (.fatal error) after)
    (overflow : error.IsOverflow) :
    frame.code.maxStack < frame.depth ∨ frame.code.maxStack + pop < frame.depth + push

/-- A part of an instruction with an effect on the stack. -/
def Effect (services : Services) (machine : Machine) (pop push : Nat) (action : Step α) : Prop :=
  ∀ frame cursor, Moves pop push frame (action services ⟨machine, frame, cursor⟩)

theorem Draws.bind {m : Nat} {action : Step α} {next : α → Step β}
    (first : Draws services machine n gives action)
    (rest : ∀ value, gives value → Effect services machine m push (next value)) :
    Effect services machine (n + m) push (action >>= next) := by
  intro frame cursor
  obtain ⟨completes, fails⟩ := first frame cursor
  cases ended : action services ⟨machine, frame, cursor⟩ with
  | error interruption after =>
    rw [bind_of_error ended]
    refine ⟨fun _ _ => nofun, fun error _ same overflow => ?_⟩
    cases same
    exact absurd overflow (fails _ _ ended)
  | ok value between =>
    rw [bind_of_ok ended]
    obtain ⟨given, same, code, depth⟩ := completes value between ended
    obtain ⟨_, between, cursor⟩ := between
    cases same
    have moves := rest value given between cursor
    refine ⟨fun other after ended => ?_, fun error after ended overflow => ?_⟩
    · have moved := moves.completes other after ended
      dsimp only at depth
      omega
    · have full := moves.overflows error after ended overflow
      dsimp only at code depth
      rw [code] at full
      omega

/-- What takes slots off moves them. -/
theorem Draws.effect {action : Step α} (draws : Draws services machine n gives action) :
    Effect services machine n 0 action := by
  intro frame cursor
  obtain ⟨completes, fails⟩ := draws frame cursor
  refine ⟨fun value after ended => ?_, fun error after ended overflow => ?_⟩
  · obtain ⟨-, -, -, depth⟩ := completes value after ended
    omega
  · exact absurd overflow (fails error after ended)

theorem draws_onFrame {operation : FrameM α} (draws : Frame.Draws n gives operation) :
    Draws services machine n gives (onFrame operation) := by
  intro frame cursor
  obtain ⟨completes, fails⟩ := draws frame
  unfold onFrame
  dsimp only
  cases ended : operation frame with
  | ok value after =>
    obtain ⟨given, code, depth⟩ := completes value after ended
    refine ⟨fun _ _ same => ?_, fun _ _ => nofun⟩
    cases same
    exact ⟨given, rfl, code, depth⟩
  | error error after =>
    refine ⟨fun _ _ => nofun, fun _ _ same => ?_⟩
    cases same
    exact fails error after ended

theorem effect_onFrame {operation : FrameM Unit} (adds : Frame.Adds n operation) :
    Effect services machine 0 n (onFrame operation) := by
  intro frame cursor
  obtain ⟨completes, fails⟩ := adds frame
  unfold onFrame
  dsimp only
  cases ended : operation frame with
  | ok value after =>
    refine ⟨fun _ _ same => ?_, fun _ _ => nofun⟩
    cases same
    exact ⟨Nat.zero_le _, (completes after ended).2⟩
  | error error after =>
    refine ⟨fun _ _ => nofun, fun _ _ _ _ => .inr ?_⟩
    exact fails error after ended

/-- What never completes may be said to move anything. -/
theorem effect_of_fails {action : Step α}
    (fails : ∀ frame cursor, ∃ interruption after,
      action services ⟨machine, frame, cursor⟩ = .error interruption after ∧
        ∀ error, interruption = .fatal error → ¬ error.IsOverflow) :
    Effect services machine pop push action := by
  intro frame cursor
  obtain ⟨interruption, after, ended, proper⟩ := fails frame cursor
  rw [ended]
  refine ⟨fun _ _ => nofun, fun error _ same overflow => ?_⟩
  cases same
  exact absurd overflow (proper error rfl)

theorem effect_pure (value : α) : Effect services machine 0 0 (pure value : Step α) := by
  refine fun frame cursor => ⟨fun _ _ ended => ?_, fun _ _ => nofun⟩
  cases ended
  exact ⟨Nat.zero_le _, rfl⟩

theorem draws_pure {value : α} (given : gives value) :
    Draws services machine 0 gives (pure value) := by
  refine fun frame cursor => ⟨fun _ _ ended => ?_, fun _ _ => nofun⟩
  cases ended
  exact ⟨given, rfl, rfl, rfl⟩

theorem Draws.andThen {m : Nat} {wanted : β → Prop} {action : Step α} {next : α → Step β}
    (first : Draws services machine n gives action)
    (rest : ∀ value, gives value → Draws services machine m wanted (next value)) :
    Draws services machine (n + m) wanted (action >>= next) := by
  intro frame cursor
  obtain ⟨completes, fails⟩ := first frame cursor
  cases ended : action services ⟨machine, frame, cursor⟩ with
  | error interruption after =>
    rw [bind_of_error ended]
    refine ⟨fun _ _ => nofun, fun error _ same => ?_⟩
    cases same
    exact fails _ _ ended
  | ok value between =>
    rw [bind_of_ok ended]
    obtain ⟨given, same, code, depth⟩ := completes value between ended
    obtain ⟨_, between, cursor⟩ := between
    cases same
    obtain ⟨completesRest, failsRest⟩ := rest value given between cursor
    refine ⟨fun other after ended => ?_, failsRest⟩
    obtain ⟨givenRest, same, codeRest, depthRest⟩ := completesRest other after ended
    dsimp only at code depth
    exact ⟨givenRest, same, codeRest.trans code, by omega⟩

theorem draws_fault (fault : InstructionFault) :
    Draws services machine n gives (Step.fault fault : Step α) :=
  fun _ _ => ⟨fun _ _ => nofun, fun _ _ ended => by cases ended; exact nofun⟩

/-- What goes on after the slots it needs were put on the stack. -/
theorem effect_add_bind {operation : FrameM Unit} {next : Step Unit}
    (first : Frame.Adds n operation) (rest : Effect services machine 0 push next) :
    Effect services machine 0 (n + push) (do onFrame operation; next) := by
  intro frame cursor
  have moves : Moves 0 n frame (onFrame operation services ⟨machine, frame, cursor⟩) :=
    effect_onFrame first frame cursor
  obtain ⟨completes, -⟩ := first frame
  cases ended : onFrame operation services ⟨machine, frame, cursor⟩ with
  | error interruption after =>
    rw [bind_of_error ended]
    refine ⟨fun _ _ => nofun, fun error _ same overflow => ?_⟩
    cases same
    have full := moves.overflows error _ ended overflow
    omega
  | ok value between =>
    rw [bind_of_ok ended]
    unfold onFrame at ended
    dsimp only at ended
    cases pushed : operation frame with
    | error error after =>
      rw [pushed] at ended
      cases ended
    | ok value after =>
      rw [pushed] at ended
      cases ended
      obtain ⟨code, depth⟩ := completes after pushed
      have moves := rest after cursor
      refine ⟨fun value last ended => ?_, fun error last ended overflow => ?_⟩
      · have moved := moves.completes value last ended
        omega
      · have full := moves.overflows error last ended overflow
        rw [code] at full
        omega

/-! ## Throwing -/

section Throwing

variable (builtin : ClassSource.StartsBuiltin services.sources)
  (sound : machine.Sound services.sources)

include builtin sound

/-- What throws a throwable of the machine never completes, and its error is another one. -/
theorem fails_throwNew {className : String} (member : className ∈ Builtin.throwableNames)
    (message : Option String) (frame : Frame) (cursor : Nat) :
    ∃ interruption after,
      onMachine (Exec.throwNew className message : Exec α) services ⟨machine, frame, cursor⟩ =
        .error interruption after ∧
      ∀ error, interruption = .fatal error → ¬ error.IsOverflow := by
  have throws : Exec.Throws machine className message
      (Exec.throwNew className message services machine : EStateM.Result Interruption Machine α) :=
    Exec.throwNew_throws builtin sound member message
  obtain ⟨after, -, outcome⟩ := throws
  unfold onMachine
  dsimp only
  rcases outcome with ⟨exception, ended, -⟩ | ⟨-, name, ended⟩
  · rw [ended]
    exact ⟨_, _, rfl, nofun⟩
  · rw [ended]
    refine ⟨_, _, rfl, fun error same => ?_⟩
    cases same
    exact nofun

theorem effect_throwNew {className : String} (member : className ∈ Builtin.throwableNames)
    (message : Option String) :
    Effect services machine pop push (onMachine (Exec.throwNew className message : Exec α)) :=
  effect_of_fails (fails_throwNew builtin sound member message)

theorem draws_throwNew {className : String} (member : className ∈ Builtin.throwableNames)
    (message : Option String) :
    Draws services machine n gives (onMachine (Exec.throwNew className message : Exec α)) := by
  intro frame cursor
  obtain ⟨interruption, after, ended, proper⟩ : ∃ interruption after,
      onMachine (Exec.throwNew className message : Exec α) services ⟨machine, frame, cursor⟩ =
        .error interruption after ∧ ∀ error, interruption = .fatal error → ¬ error.IsOverflow :=
    fails_throwNew builtin sound member message frame cursor
  rw [ended]
  refine ⟨fun _ _ => nofun, fun error _ same => ?_⟩
  cases same
  exact proper error rfl

theorem draws_popObject : Draws services machine 1 anything popObject := by
  refine (draws_onFrame Frame.draws_popReference).andThen (m := 0) fun target _ => ?_
  split
  · exact draws_pure trivial
  · exact draws_throwNew builtin sound (by decide) none

end Throwing

end Step

end JavaMachine
