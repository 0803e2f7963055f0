import JavaMachine.Proofs.Instruction.Blame
import JavaMachine.Proofs.Instruction.StackEffect

/-! # The room that an instruction needs

Each instruction reads its operands, takes slots off the stack and puts others on it. Where calls
are silent it finds the stack full only if there is no room for the slots before or after it, and
where it completes it has read as many bytes, and has left as many slots, as can be said beforehand
(`Step.Acts`). Parts that only read operands, link constants and work on the machine leave the frame
alone (`Step.Idle`). -/

namespace JavaMachine

open Operation (bind_of_ok bind_of_error exists_of_bind_ok)

namespace Step

variable {α β : Type} {services : Services} {machine : Machine} {frame : Frame} {state : StepState}
  {reads m p pop push count cursor last : Nat} {gives : α → Prop} {wanted : β → Prop}

/-! ## Parts that leave the frame alone -/

/-- A part of an instruction that reads so many bytes, leaves the frame alone and is not to blame
for a full stack. -/
def Idle (services : Services) (reads : Nat) (gives : α → Prop) (action : Step α) : Prop :=
  ∀ state,
    (∀ value after, action services state = .ok value after →
      gives value ∧ after.frame = state.frame ∧ after.cursor = state.cursor + reads) ∧
    ∀ error after, action services state = .error (.fatal error) after → ¬ services.Blames error

theorem idle_pure {value : α} (given : gives value) :
    Idle services 0 gives (pure value : Step α) := by
  refine fun state => ⟨fun _ _ ended => ?_, fun _ _ => nofun⟩
  cases ended
  exact ⟨given, rfl, rfl⟩

theorem Idle.bind {action : Step α} {next : α → Step β} (first : Idle services reads gives action)
    (rest : ∀ value, gives value → Idle services m wanted (next value)) :
    Idle services (reads + m) wanted (action >>= next) := by
  intro state
  obtain ⟨completes, fails⟩ := first state
  cases ended : action services state with
  | error interruption between =>
    rw [bind_of_error ended]
    refine ⟨fun _ _ => nofun, fun error _ same => ?_⟩
    cases same
    exact fails _ _ ended
  | ok value between =>
    rw [bind_of_ok ended]
    obtain ⟨given, sameFrame, cursor⟩ := completes value between ended
    obtain ⟨completesRest, failsRest⟩ := rest value given between
    refine ⟨fun other after ended => ?_, failsRest⟩
    obtain ⟨givenRest, sameFrame', cursor'⟩ := completesRest other after ended
    exact ⟨givenRest, sameFrame'.trans sameFrame, by omega⟩

theorem idle_onMachine {action : Exec α} (blameless : Exec.Blameless services action) :
    Idle services 0 anything (onMachine action) := by
  rintro ⟨machine, frame, cursor⟩
  simp only [onMachine]
  cases ended : action services machine with
  | ok value after =>
    refine ⟨fun _ _ same => ?_, fun _ _ clash => by cases clash⟩
    cases same
    exact ⟨trivial, rfl, rfl⟩
  | error interruption after =>
    refine ⟨fun _ _ clash => (by cases clash), fun _ _ same => ?_⟩
    cases same
    exact blameless machine _ _ ended

theorem idle_frame : Idle services 0 anything Step.frame := by
  refine fun state => ⟨fun _ _ ended => ?_, fun _ _ => nofun⟩
  cases ended
  exact ⟨trivial, rfl, rfl⟩

theorem idle_read : Idle services 0 anything (read : Step Services) := by
  refine fun state => ⟨fun _ _ ended => ?_, fun _ _ => nofun⟩
  cases ended
  exact ⟨trivial, rfl, rfl⟩

theorem idle_fault (fault : InstructionFault) : Idle services reads gives (Step.fault fault) := by
  refine fun state => ⟨fun _ _ => nofun, fun _ _ ended => ?_⟩
  cases ended
  rintro ⟨⟨site, limit, same⟩, -⟩
  cases same

/-- A fault never completes. -/
theorem fails_fault (fault : InstructionFault) :
    Idle services 0 (fun _ => False) (Step.fault fault : Step α) :=
  idle_fault fault

/-- A fault in place of a part that may be left out. -/
theorem idle_check {failed : Prop} [Decidable failed] {fault : InstructionFault} {next : Step α}
    (rest : ¬ failed → Idle services reads gives next) :
    Idle services reads gives (do
      if failed then Step.fault fault
      next) := by
  by_cases holds : failed
  · simp only [if_pos holds]
    rw [← Nat.zero_add reads]
    exact (fails_fault fault).bind fun _ => False.elim
  · simp only [if_neg holds]
    exact rest holds

theorem idle_readByte : Idle services 1 anything readByte := by
  intro state
  unfold readByte
  simp only [Bind.bind, ReaderT.bind, EStateM.bind, cursor, Step.frame]
  cases state.frame.code.bytes[state.cursor]? with
  | some byte =>
    refine ⟨fun _ _ ended => ?_, fun _ _ clash => by cases clash⟩
    cases ended
    exact ⟨trivial, rfl, rfl⟩
  | none => exact (idle_fault _ state)

theorem idle_readShort : Idle services 2 anything readShort :=
  idle_readByte.bind fun _ _ => idle_readByte.bind (m := 0) fun _ _ => idle_pure trivial

theorem idle_readSignedByte : Idle services 1 anything readSignedByte :=
  idle_readByte.bind (m := 0) fun _ _ => idle_pure trivial

theorem idle_readSignedShort : Idle services 2 anything readSignedShort :=
  idle_readShort.bind (m := 0) fun _ _ => idle_pure trivial

theorem idle_fail {error : Error} (proper : ¬ error.IsOverflow) :
    Idle services 0 gives (onMachine (Exec.fail error) : Step α) := by
  refine fun state => ⟨fun _ _ => nofun, fun _ _ ended => ?_⟩
  cases ended
  exact fun blamed => proper blamed.1

theorem idle_constantAt (index : UInt16) : Idle services 0 anything (constantAt index) := by
  refine idle_frame.bind (m := 0) fun frame _ => ?_
  dsimp only
  split
  · exact idle_pure trivial
  · exact idle_fail (Exec.not_isOverflow_of_ne nofun)

theorem idle_linkAt (index : UInt16) : Idle services 0 anything (linkAt index) :=
  idle_frame.bind (m := 0) fun _ _ =>
    (idle_onMachine (Exec.blameless_classState _)).bind (m := 0) fun _ _ => idle_pure trivial

theorem idle_setLink (index : UInt16) (link : Linkage) :
    Idle services 0 anything (setLink index link) :=
  idle_frame.bind (m := 0) fun _ _ => idle_onMachine (Exec.blameless_modify _)

theorem idle_classNamed (index : UInt16) (name : String) :
    Idle services 0 anything (classNamed index name) := by
  refine (idle_linkAt index).bind (m := 0) fun link _ => ?_
  split
  · exact idle_pure trivial
  · exact (idle_onMachine (Exec.blameless_load name)).bind (m := 0) fun _ _ =>
      (idle_setLink index _).bind (m := 0) fun _ _ => idle_pure trivial

theorem idle_classAt (index : UInt16) : Idle services 0 anything (classAt index) := by
  refine (idle_constantAt index).bind (m := 0) fun constant _ => ?_
  split
  · exact idle_classNamed index _
  · exact idle_fault _

theorem idle_linked (index : UInt16) (name : String) {find : LinkedClass → Except Error Linkage}
    (proper : ∀ c error, find c = .error error → ¬ error.IsOverflow) :
    Idle services 0 anything (linked index name find) := by
  have searches (c : LinkedClass) :
      Idle services 0 anything (onMachine (Exec.ofExcept (find c)) : Step Linkage) := by
    refine idle_onMachine ?_
    cases found : find c with
    | ok link => exact Exec.blameless_pure _
    | error error => exact Exec.blameless_fail (proper c error found)
  have resolves : Idle services 0 anything (do
      let c ← classNamed index name
      let link ← Exec.ofExcept (find c)
      setLink index link
      return link : Step Linkage) :=
    (idle_classNamed index name).bind (m := 0) fun c _ =>
      (searches c).bind (m := 0) fun link _ =>
        (idle_setLink index link).bind (m := 0) fun _ _ => idle_pure trivial
  refine (idle_linkAt index).bind (m := 0) fun link _ => ?_
  split
  · exact resolves
  · exact resolves
  · exact idle_pure trivial

theorem idle_object (ref : Ref) : Idle services 0 anything (onMachine (Exec.object ref)) :=
  idle_onMachine (Exec.blameless_object ref)

/-! ## Effects on the stack -/

/-- What has begun with a frame has taken so many slots off the stack and put others on it when it
completes at the cursor where it is to end. It is to blame for a full stack only if there is no room
for the slots before or after it. -/
structure Ran (services : Services) (pop push last : Nat) (frame : Frame)
    (result : EStateM.Result Interruption StepState α) : Prop where
  completes (value : α) (after : StepState) (ended : result = .ok value after) :
    after.cursor = last ∧ after.frame.code = frame.code ∧ pop ≤ frame.depth ∧
      after.frame.depth + pop = frame.depth + push
  overflows (error : Error) (after : StepState) (ended : result = .error (.fatal error) after)
    (blamed : services.Blames error) :
    frame.code.maxStack < frame.depth ∨ frame.code.maxStack + pop < frame.depth + push

/-- A part of an instruction that reads so many bytes and has an effect on the stack. -/
def Acts (services : Services) (reads pop push : Nat) (action : Step α) : Prop :=
  ∀ machine frame cursor,
    Ran services pop push (cursor + reads) frame (action services ⟨machine, frame, cursor⟩)

theorem Idle.ran_bind {action : Step α} {next : α → Step β}
    (idle : Idle services reads gives action)
    (rest : ∀ value machine, gives value → Ran services pop push last frame
      (next value services ⟨machine, frame, cursor + reads⟩)) :
    Ran services pop push last frame ((action >>= next) services ⟨machine, frame, cursor⟩) := by
  obtain ⟨completes, fails⟩ := idle ⟨machine, frame, cursor⟩
  cases ended : action services ⟨machine, frame, cursor⟩ with
  | error interruption after =>
    rw [bind_of_error ended]
    refine ⟨fun _ _ => nofun, fun error _ same blamed => ?_⟩
    cases same
    exact absurd blamed (fails _ _ ended)
  | ok value between =>
    rw [bind_of_ok ended]
    obtain ⟨given, sameFrame, place⟩ := completes value between ended
    obtain ⟨machine, _, _⟩ := between
    cases sameFrame
    cases place
    exact rest value machine given

theorem Idle.acts_bind {action : Step α} {next : α → Step β}
    (idle : Idle services reads gives action)
    (rest : ∀ value, gives value → Acts services m pop push (next value)) :
    Acts services (reads + m) pop push (action >>= next) := by
  intro machine frame cursor
  refine idle.ran_bind  fun value machine given => ?_
  rw [← Nat.add_assoc]
  exact rest value given machine frame (cursor + reads)

theorem Idle.acts {action : Step α} (idle : Idle services reads gives action) :
    Acts services reads 0 0 action := by
  intro machine frame cursor
  obtain ⟨completes, fails⟩ := idle ⟨machine, frame, cursor⟩
  refine ⟨fun value after ended => ?_, fun error after ended blamed => ?_⟩
  · obtain ⟨-, sameFrame, place⟩ := completes value after ended
    rw [sameFrame]
    exact ⟨place, rfl, Nat.zero_le _, rfl⟩
  · exact absurd blamed (fails error after ended)

theorem acts_draw_bind {operation : FrameM α} {next : α → Step β}
    (draws : Frame.Draws count gives operation)
    (rest : ∀ value, gives value → Acts services reads p push (next value)) :
    Acts services reads (count + p) push (onFrame operation >>= next) := by
  intro machine frame cursor
  obtain ⟨completes, fails⟩ := draws frame
  cases ended : operation frame with
  | error error after =>
    have failed : onFrame operation services ⟨machine, frame, cursor⟩ =
        .error (.fatal error) ⟨machine, after, cursor⟩ := by simp only [onFrame, ended]
    rw [bind_of_error failed]
    refine ⟨fun _ _ clash => (by cases clash), fun other _ same blamed => ?_⟩
    cases same
    exact absurd blamed.1 (fails _ _ ended)
  | ok value between =>
    have worked : onFrame operation services ⟨machine, frame, cursor⟩ =
        .ok value ⟨machine, between, cursor⟩ := by simp only [onFrame, ended]
    rw [bind_of_ok worked]
    obtain ⟨given, code, depth⟩ := completes value between ended
    have ran := rest value given machine between cursor
    refine ⟨fun other after ended => ?_, fun error after ended blamed => ?_⟩
    · obtain ⟨place, code', enough, moved⟩ := ran.completes other after ended
      exact ⟨place, code'.trans code, by omega, by omega⟩
    · have full := ran.overflows error after ended blamed
      rw [code] at full
      omega

theorem acts_add {operation : FrameM Unit} (adds : Frame.Adds count operation) :
    Acts services 0 0 count (onFrame operation) := by
  intro machine frame cursor
  obtain ⟨completes, fails⟩ := adds frame
  simp only [onFrame]
  cases ended : operation frame with
  | ok value after =>
    refine ⟨fun _ _ same => ?_, fun _ _ clash => by cases clash⟩
    cases same
    obtain ⟨code, depth⟩ := completes after ended
    exact ⟨rfl, code, Nat.zero_le _, depth⟩
  | error error after =>
    refine ⟨fun _ _ clash => (by cases clash), fun _ _ _ _ => .inr ?_⟩
    exact fails error after ended

theorem acts_push {value : Value} (kind : ValueKind) (same : value.kind = .value kind) :
    Acts services 0 0 kind.slots (onFrame (Frame.push value)) := by
  rw [← length_toSlots_of_kind same]
  exact acts_add (Frame.adds_push value)

theorem acts_pure (value : α) : Acts services 0 0 0 (pure value : Step α) := by
  have idle : Idle services 0 anything (pure value : Step α) := idle_pure trivial
  exact idle.acts

/-- What always fails may be said to have any effect. -/
theorem Idle.acts_of_fails {action : Step α} (idle : Idle services reads (fun _ => False) action) :
    Acts services m pop push action := by
  intro machine frame cursor
  obtain ⟨completes, fails⟩ := idle ⟨machine, frame, cursor⟩
  refine ⟨fun value after ended => ?_, fun error after ended blamed => ?_⟩
  · exact (completes value after ended).1.elim
  · exact absurd blamed (fails error after ended)

theorem acts_fault (fault : InstructionFault) :
    Acts services reads pop push (Step.fault fault : Step α) :=
  (fails_fault fault).acts_of_fails

theorem acts_check {failed : Prop} [Decidable failed] {fault : InstructionFault} {next : Step α}
    (rest : ¬ failed → Acts services m pop push next) :
    Acts services m pop push (do
      if failed then Step.fault fault
      next) := by
  by_cases holds : failed
  · simp only [if_pos holds]
    rw [← Nat.zero_add m]
    exact (fails_fault fault).acts_bind fun _ => False.elim
  · simp only [if_neg holds]
    exact rest holds

theorem Ran.proceeding {action : Step Unit} (ran : Ran services pop push last frame
    (action services state)) :
    Ran services pop push last frame (proceeding action services state) := by
  unfold Step.proceeding
  cases ended : action services state with
  | ok value after =>
    rw [bind_of_ok ended]
    refine ⟨fun _ _ same => ?_, fun _ _ => nofun⟩
    cases same
    exact ran.completes value after ended
  | error interruption after =>
    rw [bind_of_error ended]
    refine ⟨fun _ _ => nofun, fun error _ same => ?_⟩
    cases same
    exact ran.overflows error after ended

theorem Acts.proceeding {action : Step Unit} (acts : Acts services reads pop push action) :
    Acts services reads pop push (proceeding action) :=
  fun machine frame cursor => (acts machine frame cursor).proceeding

/-! ## Constants -/

theorem acts_bipush : Acts services 1 0 1 (do constant (.int (← readSignedByte))) :=
  idle_readSignedByte.acts_bind fun _ _ => acts_push .int rfl

theorem acts_sipush : Acts services 2 0 1 (do constant (.int (← readSignedShort))) :=
  idle_readSignedShort.acts_bind fun _ _ => acts_push .int rfl

/-- Whatever constant it is, loading it takes one slot if it can be loaded. -/
theorem acts_loadConstant (index : UInt16) : Acts services 0 0 1 (loadConstant index) := by
  refine (idle_constantAt index).acts_bind (m := 0) fun found _ => ?_
  split
  · exact acts_push .int rfl
  · exact acts_push .float rfl
  · exact (idle_onMachine (Exec.blameless_intern _)).acts_bind (m := 0) fun _ _ =>
      acts_push .reference rfl
  · exact acts_fault _

theorem acts_loadWideConstant (index : UInt16) : Acts services 0 0 2 (loadWideConstant index) := by
  refine (idle_constantAt index).acts_bind (m := 0) fun found _ => ?_
  split
  · exact acts_push .long rfl
  · exact acts_push .double rfl
  · exact acts_fault _

theorem acts_ldc : Acts services 1 0 1 (do loadConstant (← readByte).toUInt16) :=
  idle_readByte.acts_bind fun _ _ => acts_loadConstant _

theorem acts_ldcWide : Acts services 2 0 1 (do loadConstant (← readShort)) :=
  idle_readShort.acts_bind fun _ _ => acts_loadConstant _

theorem acts_ldc2Wide : Acts services 2 0 2 (do loadWideConstant (← readShort)) :=
  idle_readShort.acts_bind fun _ _ => acts_loadWideConstant _

/-! ## Objects -/

section Silent

variable (silent : services.Silent)

include silent

/-- Throwing never completes. -/
theorem idle_throwNew (className : String) (detail : Option String) :
    Idle services 0 (fun _ => False) (onMachine (Exec.throwNew className detail : Exec α)) := by
  intro state
  obtain ⟨-, fails⟩ :=
    idle_onMachine (Exec.blameless_throwNew (α := α) silent className detail) state
  refine ⟨fun value after ended => ?_, fails⟩
  obtain ⟨machine, frame, cursor⟩ := state
  simp only [onMachine, Exec.throwNew, Bind.bind, ReaderT.bind, EStateM.bind] at ended
  cases thrown : Exec.newThrowable className detail services machine with
  | ok exception left =>
    rw [thrown] at ended
    cases ended
  | error interruption left =>
    rw [thrown] at ended
    cases ended

theorem acts_throwNew (className : String) (detail : Option String) :
    Acts services reads pop push (onMachine (Exec.throwNew className detail : Exec α)) :=
  (idle_throwNew silent className detail).acts_of_fails

theorem acts_popObject_bind {next : Ref → Step β}
    (rest : ∀ ref, Acts services reads p push (next ref)) :
    Acts services reads (1 + p) push (popObject >>= next) := by
  unfold popObject
  simp only [bind_assoc]
  refine acts_draw_bind Frame.draws_popReference fun target _ => ?_
  cases target with
  | some ref =>
    rw [← Nat.zero_add reads]
    have given : Idle services 0 anything (pure ref : Step Ref) := idle_pure trivial
    exact given.acts_bind fun ref _ => rest ref
  | none =>
    rw [← Nat.zero_add reads]
    exact (idle_throwNew silent _ _).acts_bind fun _ => False.elim

theorem acts_newObject : Acts services 2 0 1 newObject := by
  refine idle_readShort.acts_bind (m := 0) fun index _ => ?_
  refine (idle_classAt index).acts_bind (m := 0) fun c _ => ?_
  refine acts_check fun _ => ?_
  refine (idle_onMachine (Exec.blameless_ensureInitialized silent c)).acts_bind (m := 0)
    fun _ _ => ?_
  refine (idle_onMachine (Exec.blameless_allocate _)).acts_bind (m := 0) fun ref _ => ?_
  exact acts_push .reference rfl

theorem idle_lengthOf (length : Int32) : Idle services 0 anything (lengthOf length) := by
  unfold lengthOf
  split
  · exact idle_onMachine (Exec.blameless_throwNew silent _ _)
  · exact idle_pure trivial

theorem idle_allocateArray (c : LinkedClass) (length : Nat) :
    Idle services 0 anything (allocateArray c length) := by
  refine idle_read.bind (m := 0) fun read _ => ?_
  split
  · exact idle_onMachine (Exec.blameless_allocateZeros c length)
  · exact idle_onMachine (Exec.blameless_throwNew silent _ _)

/-- What makes an array of some class of as many elements as the int on top of the stack says. -/
theorem acts_allocate (component : FieldType) : Acts services 0 1 1 (do
    let length ← lengthOf (← Frame.popInt)
    let c ← Exec.loadArray component
    pushObject (← allocateArray c length)) := by
  refine acts_draw_bind (p := 0) Frame.draws_popInt fun length _ => ?_
  refine (idle_lengthOf silent length).acts_bind (m := 0) fun length _ => ?_
  refine (idle_onMachine (Exec.blameless_load _)).acts_bind (m := 0) fun c _ => ?_
  exact (idle_allocateArray silent c length).acts_bind (m := 0) fun ref _ =>
    acts_push .reference rfl

theorem acts_newArray : Acts services 1 1 1 newArray := by
  refine idle_readByte.acts_bind (m := 0) fun code _ => ?_
  split
  · exact acts_fault _
  · exact acts_allocate silent _

theorem acts_newReferenceArray : Acts services 2 1 1 newReferenceArray := by
  refine idle_readShort.acts_bind (m := 0) fun index _ => ?_
  refine (idle_classAt index).acts_bind (m := 0) fun element _ => ?_
  exact acts_allocate silent _

theorem acts_checkCast : Acts services 2 1 1 checkCast := by
  refine idle_readShort.acts_bind (m := 0) fun index _ => ?_
  refine (idle_classAt index).acts_bind (m := 0) fun target _ => ?_
  refine acts_draw_bind (p := 0) Frame.draws_popReference fun reference _ => ?_
  have pushes : Acts services 0 0 1 (onFrame (Frame.push (.reference reference))) :=
    acts_push .reference rfl
  split
  · refine (idle_object _).acts_bind (m := 0) fun object _ => ?_
    split
    · exact (idle_throwNew silent _ _).acts_bind (m := 0) fun _ => False.elim
    · exact pushes
  · exact pushes

omit silent in
theorem acts_instanceOf : Acts services 2 1 1 instanceOf := by
  refine idle_readShort.acts_bind (m := 0) fun index _ => ?_
  refine (idle_classAt index).acts_bind (m := 0) fun target _ => ?_
  refine acts_draw_bind (p := 0) Frame.draws_popReference fun reference _ => ?_
  split
  · exact (idle_object _).acts_bind (m := 0) fun object _ => acts_push .int rfl
  · exact acts_push .int rfl

theorem idle_lengthsOf (counts : List Value) : Idle services 0 anything (lengthsOf counts) := by
  induction counts with
  | nil => exact idle_pure trivial
  | cons count rest ih =>
    cases count with
    | int count =>
      exact (idle_lengthOf silent count).bind (m := 0) fun _ _ =>
        ih.bind (m := 0) fun _ _ => idle_pure trivial
    | _ => exact idle_fault _

omit silent in
theorem idle_repeated {action : Step Ref} (each : Idle services 0 anything action) (count : Nat)
    (made : Array Value) : Idle services 0 anything (repeated action count made) := by
  induction count generalizing made with
  | zero => exact idle_pure trivial
  | succ count ih => exact each.bind (m := 0) fun _ _ => ih _

theorem idle_allocateNested (c : LinkedClass) (length : Nat) (inner : List Nat) :
    Idle services 0 anything (allocateNested c length inner) := by
  induction inner generalizing c length with
  | nil => exact idle_allocateArray silent c length
  | cons first rest ih =>
    rw [allocateNested]
    split
    · refine idle_check fun _ => ?_
      refine (idle_repeated (ih _ first) _ _).bind (m := 0) fun elements _ => ?_
      exact idle_onMachine (Exec.blameless_allocateElements c elements)
    · exact idle_fault _

/-- A multi-dimensional array takes as many counts off the stack as its second operand says. -/
theorem ran_newNestedArray {dimensions : UInt8}
    (operand : frame.code.bytes[cursor + 2]? = some dimensions) :
    Ran services dimensions.toNat 1 (cursor + 3) frame
      (newNestedArray services ⟨machine, frame, cursor⟩) := by
  refine idle_readShort.ran_bind  fun index machine _ => ?_
  have read : readByte services ⟨machine, frame, cursor + 2⟩ =
      .ok dimensions ⟨machine, frame, cursor + 3⟩ := by
    unfold readByte
    simp only [Bind.bind, ReaderT.bind, EStateM.bind, Step.cursor, Step.frame, operand]
    rfl
  rw [bind_of_ok read]
  refine (idle_classAt index).ran_bind  fun c machine _ => ?_
  refine acts_check (m := 0) (fun _ => ?_) machine frame (cursor + 3)
  refine acts_draw_bind (p := 0) (Frame.draws_popSlots dimensions.toNat) fun counts _ => ?_
  refine (idle_lengthsOf silent counts).acts_bind (m := 0) fun lengths _ => ?_
  cases lengths with
  | nil => exact acts_fault _
  | cons outer inner =>
    have makes : Acts services 0 0 1 (do pushObject (← allocateNested c outer inner)) :=
      (idle_allocateNested silent c outer inner).acts_bind (m := 0) fun _ _ =>
        acts_push .reference rfl
    refine idle_read.acts_bind (m := 0) fun _ _ => ?_
    split
    · exact (idle_throwNew silent _ _).acts_bind (m := 0) fun _ => False.elim
    · exact makes

end Silent

end Step

end JavaMachine
