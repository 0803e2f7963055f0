import JavaMachine.Proofs.Assembler.Conduct
import JavaMachine.Proofs.Class.Numbers
import JavaMachine.Proofs.Execution.Turns

/-! # The room that is computed suffices

Where a body is given room for the depths along it, no execution of it finds its operand stack full:
not an instruction, not the result of a call, and not a throwable that it handles
(`CodeBuilder.Fitting.not_findsFull`). What carries this from instruction to instruction, through
the calls that are made on the way, is that the frame of the body stands where control arrives with
the depth that is followed there, or waits for a call behind which it will
(`CodeBuilder.Activated`). -/

namespace JavaMachine

open Relation (ReflTransGen)

namespace Frame

variable {frame : Frame} {services : Services} {machine : Machine}

theorem Conforms.silenced (conforms : frame.Conforms services machine) :
    frame.Conforms services.silenced machine where
  sound := conforms.sound
  slotForm := conforms.slotForm
  readsStatic here type value after ended :=
    conforms.readsStatic here type value after
      (Step.hushed_readStatic.ok_of_silenced ended)
  readsInstance here type value after ended :=
    conforms.readsInstance here type value after
      (Step.hushed_readInstance.ok_of_silenced ended)

/-- A frame takes the result of a call, unless there is no room for it. -/
theorem resume_cases (result : Option Value) (frame : Frame) :
    (∃ next, resume result frame = .ok () next ∧ next.owner = frame.owner ∧
      next.code = frame.code ∧ next.pc = frame.resumePc ∧
      next.depth = frame.depth + (Value.toSlots result.toList).length) ∨
    frame.code.maxStack < frame.depth + (Value.toSlots result.toList).length := by
  cases result with
  | none => exact .inl ⟨_, rfl, rfl, rfl, rfl, rfl⟩
  | some value =>
    obtain ⟨completes, fails⟩ := adds_push value frame
    cases pushed : push value frame with
    | error error left => exact .inr (fails error left pushed)
    | ok _ left =>
      obtain ⟨locals, stack, rfl⟩ := (stays_push value).samePlace pushed
      have resumed : resume (some value) frame =
          .ok () { frame with locals, stack, pc := frame.resumePc } := by
        unfold resume
        simp only [Bind.bind, EStateM.bind, pushed]
        rfl
      exact .inl ⟨_, resumed, rfl, rfl, rfl, (completes _ pushed).2⟩

end Frame

namespace CodeBuilder

variable {start final : CodeBuilder} {items : List CodeItem} {body : CodeBody Attribute}
  {services : Services} {machine : Machine} {frame other : Frame} {outer : List Frame}
  {chain chain' : Chain}

/-! ## Bodies and their frames -/

/-- A body that is assembled from typed items only, with consistent labels, and is given the room
that has been recorded. It fits its two bytes, and is enough at the labels that are bound where
control does not arrive. No switch without targets pretends to have one for each int. -/
structure Fitting (start : CodeBuilder) (items : List CodeItem) (final : CodeBuilder)
    (body : CodeBody Attribute) : Prop extends Assembled start items final body where
  empty : start.depth = 0
  reachable : start.reachable = true
  typed : ∀ item ∈ items, ¬ item.IsRaw
  unchosen : final.chosenMaxStack = none
  consistent : Consistent start items
  fits : final.maxDepth < 2 ^ 16
  shallow : Shallow body.maxStack.toNat start items
  proper : ∀ default, .tableswitch Int32.minValue default [] ∉ items

/-- A frame executes a body: its code has been linked from the body, and the constants of its class
are those of a pool to which that of the body has grown. -/
structure Executes (final : CodeBuilder) (body : CodeBody Attribute) (frame : Frame) : Prop where
  resolved : ∃ pool, final.pool ≤ pool ∧ pool.Small ∧
    Constant.resolvePool pool.entries = .ok frame.owner.info.pool
  linked : ∃ name, Link.code frame.owner.info.pool name body = .ok frame.code

namespace Executes

theorem of_same (executes : Executes final body frame) (owner : other.owner = frame.owner)
    (code : other.code = frame.code) : Executes final body other where
  resolved := owner ▸ executes.resolved
  linked := owner ▸ code ▸ executes.linked

theorem hasFields (executes : Executes final body frame) : frame.owner.HasFields final.pool := by
  obtain ⟨pool, grows, small, resolved⟩ := executes.resolved
  intro index symbol denotes
  have meanings := Constant.meanings_of_resolvePool (Nat.le_of_lt_succ small) resolved
  exact Link.constant?_of_denotes meanings rfl (denotes.of_le grows)

theorem facts (executes : Executes final body frame) :
    frame.code.bytes = body.code.toArray ∧ frame.code.maxStack = body.maxStack.toNat ∧
      ∀ handler ∈ frame.code.handlers, ∃ entry ∈ body.handlers,
        handler.target = entry.handlerPc.toNat := by
  obtain ⟨name, linked⟩ := executes.linked
  obtain ⟨handlers, mapped, linked⟩ := Except.bind_eq_ok_iff.mp linked
  rw [← Except.ok.inj linked]
  refine ⟨rfl, rfl, fun handler member => ?_⟩
  obtain ⟨entry, among, made⟩ := Except.exists_of_mem_mapM mapped member
  refine ⟨entry, among, ?_⟩
  simp only [Link.handler] at made
  split at made
  · cases made
  · split at made
    · cases made
      rfl
    · obtain ⟨_, -, same⟩ := Except.bind_eq_ok_iff.mp made
      cases same
      rfl

end Executes

/-- A frame waits for the call of an item. With as many slots more on its stack as are counted for
the result, it will be where control stands. -/
def Awaits (start : CodeBuilder) (items : List CodeItem) (frame : Frame) : Prop :=
  ∃ item next pop push, Placed start items item frame.pc next ∧
    item.stackEffect? = some (pop, push) ∧ Stands start items frame.resumePc (frame.depth + push)

/-- What is asked of the next instruction of a chain, in which a frame of a body is outside of all
but some others: those that are given. -/
structure Regular (services : Services) (start : CodeBuilder) (items : List CodeItem)
    (outer : List Frame) (chain : Chain) (machine : Machine) : Prop where
  /-- The frame of the body holds whole values, and the fields that it reads have values of their
  types. -/
  conforms (front : chain.callers = outer) : chain.frame.Conforms services machine
  /-- A subroutine returns to where control stands. -/
  returns (front : chain.callers = outer) {index : UInt16} {next : Nat} {after : StepState}
    (placed : Placed start items (.ret index) chain.frame.pc next)
    (ended : Step.instruction services ⟨machine, chain.frame, chain.frame.pc⟩ =
      .ok .proceed after) :
    Stands start items after.cursor after.frame.depth
  /-- A method that the body calls takes as many slots as its call declares. -/
  takes (front : chain.callers = outer) {item : CodeItem} {next pop push index : Nat}
    {owner : LinkedClass} {arguments : List Value} {after : StepState}
    (placed : Placed start items item chain.frame.pc next)
    (effect : item.stackEffect? = some (pop, push))
    (ended : Step.instruction services ⟨machine, chain.frame, chain.frame.pc⟩ =
      .ok (.call owner index arguments) after) : arguments.length = pop
  /-- Its result takes as many slots as its call declares, if it has no code, -/
  answers (front : chain.callers = outer) {item : CodeItem} {next pop push index : Nat}
    {owner : LinkedClass} {arguments : List Value} {result : Option Value} {after : StepState}
    {left : Machine} (placed : Placed start items item chain.frame.pc next)
    (effect : item.stackEffect? = some (pop, push))
    (ended : Step.instruction services ⟨machine, chain.frame, chain.frame.pc⟩ =
      .ok (.call owner index arguments) after)
    (answer : services.invoke owner index arguments after.machine = .ok result left) :
    (Value.toSlots result.toList).length = push
  /-- and if it has. -/
  gives {caller : Frame} (waiting : chain.callers = caller :: outer) {item : CodeItem}
    {next pop push : Nat} {result : Option Value} {after : StepState}
    (placed : Placed start items item caller.pc next)
    (effect : item.stackEffect? = some (pop, push))
    (ended : Step.instruction services ⟨machine, chain.frame, chain.frame.pc⟩ =
      .ok (.finish result) after) : (Value.toSlots result.toList).length = push

/-- A chain in which a frame of a body, outside of which are some others, executes or waits. -/
inductive Activated (start : CodeBuilder) (items : List CodeItem) (final : CodeBuilder)
    (body : CodeBody Attribute) (outer : List Frame) : Chain → Prop where
  | runs {frame : Frame} (executes : Executes final body frame)
      (stands : Stands start items frame.pc frame.depth) :
      Activated start items final body outer ⟨frame, outer⟩
  | waits (front : Frame) {frame : Frame} (inner : List Frame)
      (executes : Executes final body frame) (awaits : Awaits start items frame) :
      Activated start items final body outer ⟨front, inner ++ frame :: outer⟩

/-! ## The frame of a body -/

/-- A frame with as many frames outside of it as another one in the same list is that one. -/
theorem cases_of_frames {front inner rest : List Frame} {handling : Frame}
    (frames : front ++ frame :: outer = inner ++ handling :: rest)
    (within : outer.length ≤ rest.length) :
    (handling = frame ∧ rest = outer) ∨ ∃ between, rest = between ++ frame :: outer := by
  rcases List.append_eq_append_iff.mp frames with ⟨more, -, same⟩ | ⟨more, -, same⟩
  · cases more with
    | nil =>
      cases same
      exact .inl ⟨rfl, rfl⟩
    | cons first more =>
      have count := congrArg List.length same
      simp only [List.length_cons, List.length_append] at count
      omega
  · cases more with
    | nil =>
      cases same
      exact .inl ⟨rfl, rfl⟩
    | cons first more =>
      cases same
      exact .inr ⟨more, rfl⟩

theorem eq_of_frames {front inner : List Frame} {handling : Frame}
    (frames : front ++ frame :: outer = inner ++ handling :: outer) : handling = frame :=
  (List.cons.inj (List.append_inj_right' frames rfl)).1.symm

namespace Fitting

variable (fitting : Fitting start items final body)

include fitting

theorem bounded : Bounded body.maxStack.toNat start items :=
  fun _ _ _ split reached => depth_le_maxStack fitting.empty fitting.emitted fitting.finished
    fitting.unchosen fitting.fits fitting.shallow split reached

/-- There is room for the depth where control stands. -/
theorem room (executes : Executes final body frame) {offset depth : Nat}
    (stands : Stands start items offset depth) : depth ≤ frame.code.maxStack := by
  rw [executes.facts.2.1]
  exact fitting.bounded.stands stands

theorem stands_begin : Stands start items 0 0 :=
  ⟨[], items, start, rfl, rfl, fitting.reachable, by rw [fitting.fresh.code]; rfl, fitting.empty⟩

theorem length_code : body.code.length = final.code.size := by
  obtain ⟨pieces, grows⟩ := exists_grows fitting.emitted
  rw [(code_of_finish fitting.fresh grows.emits fitting.finished).1, Piece.length_flatMap_encode,
    grows.emits.size, fitting.fresh.code]
  simp [Piece.blank, List.length_flatMap]

/-- At a handler, control stands with what is caught alone. -/
theorem stands_of_handler (executes : Executes final body frame) {handler : Handler}
    (member : handler ∈ frame.code.handlers) : Stands start items handler.target 1 := by
  obtain ⟨entry, among, target⟩ := executes.facts.2.2 handler member
  obtain ⟨offsets, bound⟩ :=
    handlers_of_finish fitting.fresh fitting.emitted fitting.finished
  have listed : entry.offsets ∈ (items.flatMap CodeItem.guards).map final.offsets := by
    rw [← offsets]
    exact List.mem_map_of_mem among
  obtain ⟨guard, guards, same⟩ := List.mem_map.mp listed
  have place : final.place guard.2.2 = handler.target := by
    rw [target]
    exact congrArg (·.2.2) same
  rw [← place]
  exact fitting.consistent.stands_of_guard guards
    (placed_of_offset? fitting.fresh fitting.emitted (bound guard guards guard.2.2 (by simp)))

/-- A throwable that a frame of the body handles finds room, and control stands at the handler. -/
theorem catches (executes : Executes final body frame) {handler : Handler} (exception : Ref)
    (member : handler ∈ frame.code.handlers) :
    ∃ next, Frame.catchAt handler.target exception frame = .ok () next ∧
      Executes final body next ∧ Stands start items next.pc next.depth := by
  have stands := fitting.stands_of_handler executes member
  have caught : Frame.catchAt handler.target exception frame = .ok () _ :=
    Execution.catchAt_of_room (fitting.room executes stands)
  exact ⟨_, caught, executes.of_same rfl rfl, stands⟩

/-- A frame of the body that waits finds room for the result of its call. -/
theorem resumes (executes : Executes final body frame) (awaits : Awaits start items frame)
    {result : Option Value}
    (given : ∀ item next pop push, Placed start items item frame.pc next →
      item.stackEffect? = some (pop, push) → (Value.toSlots result.toList).length = push) :
    ∃ next, Frame.resume result frame = .ok () next ∧ Executes final body next ∧
      Stands start items next.pc next.depth := by
  obtain ⟨item, behind, pop, push, placed, effect, stands⟩ := awaits
  have slots := given item behind pop push placed effect
  rcases Frame.resume_cases result frame with ⟨next, resumed, owner, code, place, depth⟩ | full
  · rw [slots] at depth
    refine ⟨next, resumed, executes.of_same owner code, ?_⟩
    rw [place, depth]
    exact stands
  · have fits := fitting.room executes stands
    omega

section Instructions

variable (builtin : ClassSource.StartsBuiltin services.sources)
  (executes : Executes final body frame) (stands : Stands start items frame.pc frame.depth)
  (conforms : frame.Conforms services machine)

include builtin executes stands conforms

/-- Where control stands, an item is executed, or the code ends. -/
theorem conducts :
    (∃ error left, Step.instruction services.silenced ⟨machine, frame, frame.pc⟩ =
      .error (.fatal error) left ∧ ¬ error.IsOverflow) ∨
    ∃ item before after pop push, Meets start items body item before after frame ∧
      item.stackEffect? = some (pop, push) ∧
      Conducts services.silenced start items item after.code.size frame
        (Step.instruction services.silenced ⟨machine, frame, frame.pc⟩) := by
  obtain ⟨bytes, maxStack, -⟩ := executes.facts
  rcases stands.cases fitting.emitted fitting.typed with
    ends | ⟨item, before, after, pop, push, arrives, effect, place, depth⟩
  · have none : frame.code.bytes[frame.pc]? = none := by
      rw [bytes, Array.getElem?_eq_none]
      rw [List.size_toArray, fitting.length_code, ends]
    have failed : Step.readByte services.silenced ⟨machine, frame, frame.pc⟩ =
        (Step.fault (.codeEnds frame.pc) : Step UInt8) services.silenced
          ⟨machine, frame, frame.pc⟩ := by
      unfold Step.readByte
      simp only [Bind.bind, ReaderT.bind, EStateM.bind, Step.cursor, Step.frame, none]
    refine .inl ⟨_, _, Operation.bind_of_error failed, ?_⟩
    rintro ⟨_, _, clash⟩
    cases clash
  · have meets : Meets start items body item before after frame :=
      ⟨arrives, ⟨bytes, place.symm⟩, depth.symm, maxStack ▸ fitting.bounded⟩
    obtain ⟨pool, grows, small, -⟩ := executes.resolved
    obtain ⟨front, back, split, -⟩ := arrives.leads
    have proper (default : Label) : item ≠ .tableswitch Int32.minValue default [] := by
      rintro rfl
      exact fitting.proper default (split ▸ List.mem_append_right _ List.mem_cons_self)
    exact .inr ⟨item, before, after, pop, push, meets, effect,
      fitting.toAssembled.conducts meets fitting.consistent proper (small.of_le grows) builtin
        services.silent_silenced executes.hasFields conforms.silenced effect⟩

/-- An instruction that goes on goes on where control stands. -/
theorem proceeds {after : StepState}
    (ended : Step.instruction services ⟨machine, frame, frame.pc⟩ = .ok .proceed after)
    (returns : ∀ index next, Placed start items (.ret index) frame.pc next →
      Stands start items after.cursor after.frame.depth) :
    Stands start items after.cursor after.frame.depth := by
  have silenced := Step.hushed_instruction.silenced_of_ok ended
  rcases fitting.conducts builtin executes stands conforms with
    ⟨error, left, failed, -⟩ | ⟨item, before, behind, pop, push, meets, -, conducts⟩
  · cases silenced.symm.trans failed
  · by_cases subroutine : ∃ index, item = .ret index
    · obtain ⟨index, rfl⟩ := subroutine
      exact returns index _ (meets.place.pc ▸ meets.arrives.placed)
    · exact conducts.proceeds (fun index same => subroutine ⟨index, same⟩) after silenced

/-- A frame that makes a call waits for it. -/
theorem awaits {owner : LinkedClass} {index : Nat} {arguments : List Value} {after : StepState}
    (ended : Step.instruction services ⟨machine, frame, frame.pc⟩ =
      .ok (.call owner index arguments) after)
    (takes : ∀ item next pop push, Placed start items item frame.pc next →
      item.stackEffect? = some (pop, push) → arguments.length = pop) :
    Awaits start items { after.frame with resumePc := after.cursor } := by
  have silenced := Step.hushed_instruction.silenced_of_ok ended
  rcases fitting.conducts builtin executes stands conforms with
    ⟨error, left, failed, -⟩ | ⟨item, before, behind, pop, push, meets, effect, conducts⟩
  · cases silenced.symm.trans failed
  · have placed : Placed start items item frame.pc behind.code.size :=
      meets.place.pc ▸ meets.arrives.placed
    obtain ⟨⟨kind, named, name, descriptor, rfl⟩, cursor, depth⟩ :=
      conducts.calls owner index arguments after silenced
    have taken := takes _ _ pop push placed effect
    obtain ⟨enough, -, -⟩ :=
      alters_item effect _ _ _ meets.arrives.emitted meets.arrives.reachable
    have same := meets.depth
    have deep : before.depth - pop = after.frame.depth := by omega
    have goesOn := meets.arrives.stands_behind effect rfl
    rw [deep, ← cursor] at goesOn
    have pc : after.frame.pc = frame.pc := (Chain.samePlace_of_instruction ended).pc
    exact ⟨_, _, pop, push, pc ▸ placed, effect, goesOn⟩

/-- No instruction of the body finds the stack full by itself. -/
theorem proper_instruction {error : Error} {after : StepState}
    (failed : Step.instruction services.silenced ⟨machine, frame, frame.pc⟩ =
      .error (.fatal error) after) : ¬ services.Blames error := by
  rcases fitting.conducts builtin executes stands conforms with
    ⟨other, left, ended, proper⟩ | ⟨item, before, behind, pop, push, -, -, conducts⟩
  · cases ended.symm.trans failed
    exact fun blamed => proper blamed.1
  · exact conducts.proper error after failed

end Instructions

/-! ## Chains -/

section Chains

variable (builtin : ClassSource.StartsBuiltin services.sources)

include builtin

section Runs

variable (executes : Executes final body frame) (stands : Stands start items frame.pc frame.depth)
  (regular : Regular services start items outer ⟨frame, outer⟩ machine)

include executes stands regular

/-- A frame of the body that makes a call waits for it. -/
theorem calls {owner : LinkedClass} {index : Nat} {arguments : List Value} {after : StepState}
    (ended : Step.instruction services ⟨machine, frame, frame.pc⟩ =
      .ok (.call owner index arguments) after) :
    Executes final body { after.frame with resumePc := after.cursor } ∧
      Awaits start items { after.frame with resumePc := after.cursor } := by
  have same := Chain.samePlace_of_instruction ended
  exact ⟨executes.of_same same.owner same.code,
    fitting.awaits builtin executes stands (regular.conforms rfl) ended
      fun _ _ _ _ placed effect => regular.takes rfl placed effect ended⟩

/-- A frame of the body that calls a method without code finds room for its result. -/
theorem answers {owner : LinkedClass} {index : Nat} {arguments : List Value} {after : StepState}
    {result : Option Value} {left : Machine}
    (ended : Step.instruction services ⟨machine, frame, frame.pc⟩ =
      .ok (.call owner index arguments) after)
    (answer : services.invoke owner index arguments after.machine = .ok result left) :
    ∃ next, Frame.resume result { after.frame with resumePc := after.cursor } = .ok () next ∧
      Executes final body next ∧ Stands start items next.pc next.depth := by
  obtain ⟨executes', awaits⟩ := fitting.calls builtin executes stands regular ended
  have same : after.frame.pc = frame.pc := (Chain.samePlace_of_instruction ended).pc
  refine fitting.resumes executes' awaits fun item next pop push placed effect => ?_
  have placed : Placed start items item frame.pc next := same ▸ placed
  exact regular.answers rfl placed effect ended answer

theorem activated_of_runs (turns : Chain.Turns services machine ⟨frame, outer⟩ chain)
    (within : outer.length ≤ chain.callers.length) :
    Activated start items final body outer chain := by
  cases turns with
  | proceeds ended =>
    have same := Chain.samePlace_of_instruction ended
    exact .runs (executes.of_same same.owner same.code)
      (fitting.proceeds builtin executes stands (regular.conforms rfl) ended
        fun _ _ placed => regular.returns rfl placed ended)
  | enters ended =>
    obtain ⟨executes', awaits⟩ := fitting.calls builtin executes stands regular ended
    exact .waits _ [] executes' awaits
  | answered ended answer resumed =>
    obtain ⟨next, same, executes', stands'⟩ :=
      fitting.answers builtin executes stands regular ended answer
    cases same.symm.trans resumed
    exact .runs executes' stands'
  | finished ended resumed => exact absurd within (by simp)
  | @caught _ thrown _ _ _ inner _ _ _ owner code frames handles caught =>
    have frames : [] ++ thrown :: outer = _ := frames
    rcases cases_of_frames frames within with ⟨rfl, rfl⟩ | ⟨between, rfl⟩
    · obtain ⟨next, same, executes', stands'⟩ :=
        fitting.catches (executes.of_same owner code) _ handles
      cases same.symm.trans caught
      exact .runs executes' stands'
    · have count := congrArg List.length frames
      simp only [List.length_append, List.length_cons, List.length_nil] at count
      omega

theorem not_findsFull_of_runs : ¬ Chain.FindsFull services machine ⟨frame, outer⟩ outer := by
  intro full
  cases full with
  | instruction ended blamed =>
    exact fitting.proper_instruction builtin executes stands (regular.conforms rfl) ended blamed
  | answered ended answer full =>
    obtain ⟨next, same, -⟩ := fitting.answers builtin executes stands regular ended answer
    cases same.symm.trans full
  | @caught _ thrown _ _ _ _ _ _ _ _ owner code frames handles full =>
    have frames : [] ++ thrown :: outer = _ := frames
    obtain rfl := eq_of_frames frames
    obtain ⟨next, same, -⟩ := fitting.catches (executes.of_same owner code) _ handles
    cases same.symm.trans full

end Runs

omit builtin in
/-- The other frames of a chain go on as they may, until the frame of a body that waits takes the
result of its call or handles a throwable. -/
theorem activated_of_waits {front : Frame} {inner : List Frame}
    (executes : Executes final body frame) (awaits : Awaits start items frame)
    (regular : Regular services start items outer ⟨front, inner ++ frame :: outer⟩ machine)
    (turns : Chain.Turns services machine ⟨front, inner ++ frame :: outer⟩ chain)
    (within : outer.length ≤ chain.callers.length) :
    Activated start items final body outer chain := by
  generalize callers : inner ++ frame :: outer = waiting at turns
  cases turns with
  | proceeds ended | answered ended answer resumed =>
    subst callers
    exact .waits _ inner executes awaits
  | enters ended =>
    subst callers
    exact .waits _ (_ :: inner) executes awaits
  | finished ended resumed =>
    cases inner with
    | nil =>
      cases callers
      obtain ⟨next, same, executes', stands⟩ := fitting.resumes executes awaits
        fun _ _ _ _ placed effect => regular.gives rfl placed effect ended
      cases same.symm.trans resumed
      exact .runs executes' stands
    | cons first rest =>
      cases callers
      exact .waits _ rest executes awaits
  | @caught _ thrown _ _ _ _ _ _ _ owner code frames handles caught =>
    subst callers
    have frames : (thrown :: inner) ++ frame :: outer = _ := frames
    rcases cases_of_frames frames within with ⟨rfl, rfl⟩ | ⟨rest, rfl⟩
    · obtain ⟨next, same, executes', stands⟩ := fitting.catches executes _ handles
      cases same.symm.trans caught
      exact .runs executes' stands
    · exact .waits _ rest executes awaits

omit builtin in
theorem not_findsFull_of_waits {front : Frame} {inner : List Frame}
    (executes : Executes final body frame) (awaits : Awaits start items frame)
    (regular : Regular services start items outer ⟨front, inner ++ frame :: outer⟩ machine) :
    ¬ Chain.FindsFull services machine ⟨front, inner ++ frame :: outer⟩ outer := by
  intro full
  generalize callers : inner ++ frame :: outer = waiting at full
  have more : outer.length < waiting.length := by
    rw [← callers, List.length_append, List.length_cons]
    omega
  cases full with
  | instruction | answered => exact absurd more (Nat.lt_irrefl _)
  | @finished _ caller _ _ _ _ _ ended full =>
    have frames : inner ++ frame :: outer = [] ++ caller :: outer := callers
    obtain rfl := eq_of_frames frames
    obtain ⟨next, same, -⟩ := fitting.resumes executes awaits
      fun _ _ _ _ placed effect => regular.gives callers placed effect ended
    cases same.symm.trans full
  | @caught _ thrown _ _ _ _ _ _ _ _ owner code frames handles full =>
    subst callers
    have frames : (thrown :: inner) ++ frame :: outer = _ := frames
    obtain rfl := eq_of_frames frames
    obtain ⟨next, same, -⟩ := fitting.catches executes _ handles
    cases same.symm.trans full

theorem activated_of_turns (activated : Activated start items final body outer chain)
    (regular : Regular services start items outer chain machine)
    (turns : Chain.Turns services machine chain chain')
    (within : outer.length ≤ chain'.callers.length) :
    Activated start items final body outer chain' := by
  cases activated with
  | runs executes stands =>
    exact fitting.activated_of_runs builtin executes stands regular turns within
  | waits front inner executes awaits =>
    exact fitting.activated_of_waits executes awaits regular turns within

end Chains

end Fitting

/-! ## Executions of a body -/

/-- A chain goes on regularly, and the frame of a body, outside of which are some others, goes on
with it. -/
def GoesOn (services : Services) (start : CodeBuilder) (items : List CodeItem) (outer : List Frame)
    (before after : Chain × Machine) : Prop :=
  Regular services start items outer before.1 before.2 ∧ Advances services before after ∧
    outer.length ≤ after.1.callers.length

theorem Fitting.activated_of_reached (fitting : Fitting start items final body)
    (builtin : ClassSource.StartsBuiltin services.sources) {before after : Chain × Machine}
    (reached : ReflTransGen (GoesOn services start items outer) before after)
    (activated : Activated start items final body outer before.1) :
    Activated start items final body outer after.1 := by
  induction reached with
  | refl => exact activated
  | tail _ goesOn ih =>
    obtain ⟨regular, advances, within⟩ := goesOn
    exact fitting.activated_of_turns builtin ih regular (Chain.turns_of_advances advances) within

theorem Fitting.activated_of_enter (fitting : Fitting start items final body) {owner : LinkedClass}
    {index : Nat} {arguments : List Value} {begun : Frame}
    (entered : Frame.enter owner index arguments = .ok begun)
    (executes : Executes final body begun) :
    Activated start items final body outer ⟨begun, outer⟩ := by
  have atStart : begun.pc = 0 ∧ begun.depth = 0 := by
    unfold Frame.enter at entered
    split at entered
    · cases entered
    · dsimp only at entered
      split at entered
      · cases entered
      · split at entered
        · cases entered
        · cases entered
          exact ⟨rfl, rfl⟩
  refine .runs executes ?_
  rw [atStart.1, atStart.2]
  exact fitting.stands_begin

/-- **The room that is computed for a body suffices**: throughout a call of it, whatever methods are
called on the way and whatever is thrown, the operand stack of its frame is never found full. An
error that says that a stack is full is that of a source of classes, of a call outside of the chain,
or of another frame. -/
theorem Fitting.not_findsFull (fitting : Fitting start items final body)
    (builtin : ClassSource.StartsBuiltin services.sources) {owner : LinkedClass} {index : Nat}
    {arguments : List Value} {begun : Frame} {started : Machine}
    (entered : Frame.enter owner index arguments = .ok begun)
    (executes : Executes final body begun)
    (reached : ReflTransGen (GoesOn services start items outer) (⟨begun, outer⟩, started)
      (chain, machine))
    (regular : Regular services start items outer chain machine) :
    ¬ Chain.FindsFull services machine chain outer ∧
      ∀ error after, Execution.advance chain services machine = .error (.fatal error) after →
        error.IsOverflow → services.LoadsWith error ∨
          Execution.advance chain services.silenced machine = .error .outOfFuel after ∨
          ∃ others ≠ outer, Chain.FindsFull services machine chain others := by
  have proper : ¬ Chain.FindsFull services machine chain outer := by
    have activated : Activated start items final body outer chain :=
      fitting.activated_of_reached builtin reached (fitting.activated_of_enter entered executes)
    cases activated with
    | runs executes stands => exact fitting.not_findsFull_of_runs builtin executes stands regular
    | waits front inner executes awaits =>
      exact fitting.not_findsFull_of_waits executes awaits regular
  refine ⟨proper, fun error after failed overflow => ?_⟩
  refine (Chain.findsFull_of_advance overflow failed).imp_right fun elsewhere =>
    elsewhere.imp_right ?_
  rintro ⟨others, full⟩
  exact ⟨others, fun same => proper (same ▸ full), full⟩

/-! ## A body that adds two numbers -/

/-- Adds two numbers and returns the sum. -/
def adding : List CodeItem :=
  [.iconst 1, .iconst 2, .plain (Opcode.arithmetic .add .int).byte,
    .plain (Opcode.returnValue .int).byte]

/-- The method with that body. -/
def sumMethod : Method :=
  ⟨⟨0x0009⟩, "sum", "()I", ⟨[], some .int⟩, some ⟨2, 0, #[0x04, 0x05, 0x60, 0xac], []⟩⟩

def sumClass : LinkedClass :=
  .mk ⟨"Sum", ⟨0x0001⟩, #[], [], [], #[sumMethod], none, none⟩ none [] none
    (MethodTable.build #[sumMethod] none [])

/-- A frame in which the method has come to an offset. -/
def sumFrame (pc : Nat) (stack : Array Value) : Frame where
  owner := sumClass
  method := sumMethod
  code := ⟨2, 0, #[0x04, 0x05, 0x60, 0xac], []⟩
  pc
  resumePc := 0
  locals := #[]
  stack

theorem not_bind_adding {front back : List CodeItem} {label : Label} :
    adding ≠ front ++ .bind label :: back := by
  intro split
  have member : .bind label ∈ adding := split ▸ List.mem_append_right _ List.mem_cons_self
  simp [adding] at member

theorem adding_facts :
    (adding.forM CodeBuilder.item fresh).toOption.map (fun ended =>
      (ended.2.chosenMaxStack, ended.2.maxDepth, ended.2.pool.entries.size)) = some (none, 2, 0) ∧
    ((adding.forM CodeBuilder.item fresh).toOption.bind fun ended => ended.2.finish.toOption).map
      (fun body => (body.maxStack, body.maxLocals, body.code, body.handlers.length)) =
      some (2, 0, [0x04, 0x05, 0x60, 0xac], 0) ∧
    (Constant.resolvePool #[]).toOption.map Array.size = some 0 := by
  decide +kernel

theorem fitting_adding : ∃ final body, Fitting fresh adding final body ∧
    ∀ pc stack, Executes final body (sumFrame pc stack) := by
  obtain ⟨along, made, resolved⟩ := adding_facts
  cases emitted : adding.forM CodeBuilder.item fresh with
  | error fault =>
    rw [emitted] at along
    cases along
  | ok ended =>
    obtain ⟨⟨⟩, final⟩ := ended
    rw [emitted] at along made
    cases finished : final.finish with
    | error fault => simp [Except.toOption, finished] at made
    | ok body =>
      obtain ⟨unchosen, recorded, empty⟩ :
          final.chosenMaxStack = none ∧ final.maxDepth = 2 ∧ final.pool.entries = #[] := by
        simpa [Except.toOption] using along
      obtain ⟨maxStack, maxLocals, code, handlers⟩ :
          body.maxStack = 2 ∧ body.maxLocals = 0 ∧ body.code = [0x04, 0x05, 0x60, 0xac] ∧
            body.handlers = [] := by
        simpa [Except.toOption, finished] using made
      have none : Constant.resolvePool #[] = .ok #[] := by
        cases ended : Constant.resolvePool #[] with
        | error error => simp [Except.toOption, ended] at resolved
        | ok constants => simpa [Except.toOption, ended] using resolved
      refine ⟨final, body, ?_, fun pc stack => ⟨⟨final.pool, le_rfl, ?_, ?_⟩, "sum", ?_⟩⟩
      · exact {
          fresh := ⟨rfl, rfl, rfl, fun _ => rfl⟩
          emitted
          finished
          empty := rfl
          reachable := rfl
          typed := by simp [adding, CodeItem.IsRaw]
          unchosen
          consistent := fun front label back builder bound split => absurd split not_bind_adding
          fits := by omega
          shallow := fun front label back builder split => absurd split not_bind_adding
          proper := fun default => by simp [adding] }
      · rw [PoolBuilder.Small, empty]
        decide
      · rw [empty]
        exact none
      · rw [Link.code, handlers, code, maxStack, maxLocals]
        rfl

theorem regular_adding {pc : Nat} {stack : Array Value} {after : StepState}
    (slotForm : (sumFrame pc stack).InSlotForm)
    (plain : ∀ op ∈ [Opcode.getstatic, Opcode.getfield],
      (sumFrame pc stack).code.bytes[pc]? ≠ some op.byte)
    (ended : Step.instruction Services.builtin ⟨{}, sumFrame pc stack, pc⟩ = .ok .proceed after) :
    Regular Services.builtin fresh adding [] ⟨sumFrame pc stack, []⟩ {} where
  conforms _ := {
    sound := Machine.sound_new _
    slotForm
    readsStatic := fun here => absurd here (plain _ (by simp))
    readsInstance := fun here => absurd here (plain _ (by simp)) }
  returns _ {index _ _} placed := by
    obtain ⟨front, back, before, after, split, -⟩ := placed
    have member : .ret index ∈ adding := split ▸ List.mem_append_right _ List.mem_cons_self
    simp [adding] at member
  takes _ _ _ _ _ _ _ _ _ _ _ called := by cases ended.symm.trans called
  answers _ _ _ _ _ _ _ _ _ _ _ _ _ called := by cases ended.symm.trans called
  gives waiting := by cases waiting

theorem goesOn_adding {pc next : Nat} {stack left : Array Value}
    (slotForm : (sumFrame pc stack).InSlotForm)
    (plain : ∀ op ∈ [Opcode.getstatic, Opcode.getfield],
      (sumFrame pc stack).code.bytes[pc]? ≠ some op.byte)
    (ended : Step.instruction Services.builtin ⟨{}, sumFrame pc stack, pc⟩ =
      .ok .proceed ⟨{}, sumFrame pc left, next⟩) :
    GoesOn Services.builtin fresh adding [] (⟨sumFrame pc stack, []⟩, {})
      (⟨sumFrame next left, []⟩, {}) := by
  refine ⟨regular_adding slotForm plain ended, ?_, le_rfl⟩
  have advances : Execution.advance ⟨sumFrame pc stack, []⟩ Services.builtin {} =
      Execution.goOn next [] (sumFrame pc left) Services.builtin {} :=
    Execution.advance_of_proceeds ended
  exact advances

theorem instruction_sum {pc : Nat} {stack : Array Value}
    {result : EStateM.Result Interruption StepState Next} (op : Opcode) (listed : op ∈ Opcode.all)
    (here : Holds (sumFrame pc stack).code.bytes.toList pc [op.byte])
    (executed : Step.execute op Services.builtin ⟨{}, sumFrame pc stack, pc + 1⟩ = result) :
    Step.instruction Services.builtin ⟨{}, sumFrame pc stack, pc⟩ = result :=
  (Execution.instruction_of_opcode op (Opcode.ofByte?_byte listed) here).trans executed

/-- Before the numbers are added, the stack is as full as it gets. -/
theorem not_findsFull_adding : ∃ final body, Fitting fresh adding final body ∧
    Executes final body (sumFrame 0 #[]) ∧
    ReflTransGen (GoesOn Services.builtin fresh adding []) (⟨sumFrame 0 #[], []⟩, {})
      (⟨sumFrame 2 #[.int 1, .int 2], []⟩, {}) ∧
    ¬ Chain.FindsFull Services.builtin {} ⟨sumFrame 2 #[.int 1, .int 2], []⟩ [] := by
  obtain ⟨final, body, fitting, executes⟩ := fitting_adding
  have first : Step.instruction Services.builtin ⟨{}, sumFrame 0 #[], 0⟩ =
      .ok .proceed ⟨{}, sumFrame 0 #[.int 1], 1⟩ :=
    instruction_sum (.iconst 2) (by decide) ⟨_, rfl⟩ rfl
  have second : Step.instruction Services.builtin ⟨{}, sumFrame 1 #[.int 1], 1⟩ =
      .ok .proceed ⟨{}, sumFrame 1 #[.int 1, .int 2], 2⟩ :=
    instruction_sum (.iconst 3) (by decide) ⟨_, rfl⟩ rfl
  have third : Step.instruction Services.builtin ⟨{}, sumFrame 2 #[.int 1, .int 2], 2⟩ =
      .ok .proceed ⟨{}, sumFrame 2 #[.int 3], 3⟩ :=
    instruction_sum (.arithmetic .add .int) (by decide) ⟨_, rfl⟩ rfl
  have reached : ReflTransGen (GoesOn Services.builtin fresh adding [])
      (⟨sumFrame 0 #[], []⟩, {}) (⟨sumFrame 2 #[.int 1, .int 2], []⟩, {}) :=
    .tail (.single (goesOn_adding ⟨[], nofun, rfl⟩ (by decide +kernel) first))
      (goesOn_adding ⟨[.int 1], by decide, by decide⟩ (by decide +kernel) second)
  have regular : Regular Services.builtin fresh adding []
      ⟨sumFrame 2 #[.int 1, .int 2], []⟩ {} :=
    regular_adding ⟨[.int 1, .int 2], by decide, by decide⟩ (by decide +kernel) third
  have entered : Frame.enter sumClass 0 [] = .ok (sumFrame 0 #[]) := rfl
  exact ⟨final, body, fitting, executes 0 #[], reached,
    (fitting.not_findsFull Services.startsBuiltin_builtin entered (executes 0 #[]) reached
      regular).1⟩

end CodeBuilder

end JavaMachine
