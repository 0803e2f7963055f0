import JavaMachine.Proofs.Assembler.Effects
import JavaMachine.Proofs.Assembler.Stack

/-! # Execution along a body

Where control arrives at an item of a body with a stack as deep as is followed there, the machine
executes the item: it goes on where control stands, with the depth that is followed there, or calls
a method with arguments from the stack (`CodeBuilder.Conducts`). If there is room for the depths
along the body, it is never to blame for a full stack. Only a return from a subroutine may go
anywhere. -/

namespace JavaMachine

/-- A class has the references to fields that a pool has, under their indices. -/
def LinkedClass.HasFields (c : LinkedClass) (pool : PoolBuilder) : Prop :=
  ∀ index symbol, Constant.Denotes pool.entries index (.fieldref symbol) →
    c.constant? index = some (.fieldref symbol)

namespace Frame

/-- A branch pops what it compares. A call of a subroutine pushes where to return to, and is the
only branch that may find the stack full. -/
theorem decides_depth {op : Opcode} {pops : Nat} (branches : CodeBuilder.branchPops op = some pops)
    (next : Nat) (frame : Frame) :
    (∀ taken after, decides next op frame = .ok taken after →
      after.depth + pops = frame.depth + (if op = .jsr then 1 else 0) ∧
        (taken = false → op ≠ .goto ∧ op ≠ .jsr)) ∧
    ∀ error after, decides next op frame = .error error after → error.IsOverflow →
      op = .jsr ∧ frame.code.maxStack < frame.depth + 1 := by
  have plainly {m : Nat} {operation : FrameM Bool} (draws : Draws m anything operation)
      (plain : op ≠ .jsr) (onward : op ≠ .goto) :
      (∀ taken after, operation frame = .ok taken after →
        after.depth + m = frame.depth + (if op = .jsr then 1 else 0) ∧
          (taken = false → op ≠ .goto ∧ op ≠ .jsr)) ∧
      ∀ error after, operation frame = .error error after → error.IsOverflow →
        op = .jsr ∧ frame.code.maxStack < frame.depth + 1 := by
    obtain ⟨completes, fails⟩ := draws frame
    rw [if_neg plain]
    exact ⟨fun taken after ended => ⟨(completes taken after ended).2.2, fun _ => ⟨onward, plain⟩⟩,
      fun error after ended overflow => absurd overflow (fails error after ended)⟩
  cases op with
  | ifInt condition =>
    cases branches
    exact plainly (draws_popInt.bind (m := 0) fun _ _ => draws_pure trivial) nofun nofun
  | ifNull null =>
    cases branches
    exact plainly (draws_popReference.bind (m := 0) fun _ _ => draws_pure trivial) nofun nofun
  | ifInts condition =>
    cases branches
    exact plainly (draws_popInt.bind (m := 1) fun _ _ =>
      draws_popInt.bind (m := 0) fun _ _ => draws_pure trivial) nofun nofun
  | ifReferences equal =>
    cases branches
    exact plainly (draws_popReference.bind (m := 1) fun _ _ =>
      draws_popReference.bind (m := 0) fun _ _ => draws_pure trivial) nofun nofun
  | goto =>
    cases branches
    refine ⟨fun taken after ended => ?_, fun _ _ => nofun⟩
    cases ended
    exact ⟨rfl, nofun⟩
  | jsr =>
    cases branches
    obtain ⟨completes, fails⟩ := adds_push (.returnAddress next) frame
    have pushes : decides next .jsr frame =
        (push (.returnAddress next) >>= fun _ => pure true) frame := rfl
    rw [pushes]
    simp only [Bind.bind, EStateM.bind]
    cases pushed : push (.returnAddress next) frame with
    | ok value left =>
      refine ⟨fun taken after ended => ?_, fun _ _ => nofun⟩
      cases ended
      exact ⟨(completes left pushed).2, nofun⟩
    | error error left =>
      exact ⟨fun _ _ => nofun, fun _ _ _ _ => ⟨trivial, fails error left pushed⟩⟩
  | _ => cases branches

end Frame

namespace CodeBuilder

open Step (Goes Calls)

variable {start before after final : CodeBuilder} {items : List CodeItem} {item : CodeItem}
  {body : CodeBody Attribute} {services : Services} {machine : Machine} {frame : Frame}
  {pop push limit last : Nat} {bytes : List UInt8}
  {result : EStateM.Result Interruption StepState Next}

/-- The depths along a body are within a limit. -/
def Bounded (limit : Nat) (start : CodeBuilder) (items : List CodeItem) : Prop :=
  ∀ front back builder, items = front ++ back →
    front.forM CodeBuilder.item start = .ok ((), builder) → builder.depth ≤ limit

theorem Bounded.stands (bounded : Bounded limit start items) {offset depth : Nat}
    (stands : Stands start items offset depth) : depth ≤ limit := by
  obtain ⟨front, back, builder, split, reached, -, -, rfl⟩ := stands
  exact bounded front back builder split reached

/-- A frame is at an item of its body where control arrives. Its stack is as deep as is followed
there, and there is room for the depths along the body. -/
structure Meets (start : CodeBuilder) (items : List CodeItem) (body : CodeBody Attribute)
    (item : CodeItem) (before after : CodeBuilder) (frame : Frame) : Prop where
  arrives : Arrives start items item before after
  place : frame.At body before.code.size
  depth : frame.depth = before.depth
  room : Bounded frame.code.maxStack start items

/-- What the execution of an item comes to. -/
structure Conducts (services : Services) (start : CodeBuilder) (items : List CodeItem)
    (item : CodeItem) (last : Nat) (frame : Frame)
    (result : EStateM.Result Interruption StepState Next) : Prop where
  /-- Control goes on where it stands. -/
  proceeds (other : ∀ index, item ≠ .ret index) (after : StepState)
    (ended : result = .ok .proceed after) : Stands start items after.cursor after.frame.depth
  /-- A call takes its arguments off the stack. -/
  calls (owner : LinkedClass) (index : Nat) (arguments : List Value) (after : StepState)
    (ended : result = .ok (.call owner index arguments) after) :
    (∃ kind owner name descriptor, item = .call kind owner name descriptor) ∧
      after.cursor = last ∧ after.frame.depth + arguments.length = frame.depth
  /-- The stack is not found full. -/
  proper (error : Error) (after : StepState) (ended : result = .error (.fatal error) after) :
    ¬ services.Blames error

namespace Meets

variable (meets : Meets start items body item before after frame)
include meets

theorem room_before : before.depth ≤ frame.code.maxStack :=
  meets.room.stands meets.arrives.stands

theorem room_after : after.depth ≤ frame.code.maxStack := by
  obtain ⟨front, back, split, reached⟩ := meets.arrives.leads
  exact meets.room (front ++ [item]) back after (by rw [split, List.append_assoc]; rfl)
    (forM_concat_eq_ok reached meets.arrives.emitted)

theorem exists_behind (assembled : Assembled start items final body) :
    ∃ front back : List CodeItem, front.forM CodeBuilder.item start = .ok ((), before) ∧
      back.forM CodeBuilder.item after = .ok ((), final) := by
  obtain ⟨front, back, rfl, reached⟩ := meets.arrives.leads
  obtain ⟨middle, reached', behind⟩ := forM_append_eq_ok.mp assembled.emitted
  rw [reached] at reached'
  cases reached'
  obtain ⟨between, added, behind⟩ := forM_cons_eq_ok.mp behind
  rw [meets.arrives.emitted] at added
  cases added
  exact ⟨front, back, reached, behind⟩

/-- The code of the frame holds the bytes of the item. -/
theorem holds (assembled : Assembled start items final body)
    (lays : Lays (Piece.ofBytes bytes) before after) :
    Holds frame.code.bytes.toList frame.pc bytes ∧ after.code.size = frame.pc + bytes.length := by
  obtain ⟨front, back, reached, behind⟩ := meets.exists_behind assembled
  obtain ⟨holds, -⟩ :=
    holds_of_emits assembled.fresh reached lays.emits behind assembled.finished
  have size := lays.emits.size
  rw [Piece.encode_ofBytes] at holds
  rw [Piece.blank_ofBytes] at size
  rw [meets.place.code, meets.place.pc]
  exact ⟨holds, size⟩

/-- An instruction that goes on behind it, if it goes on at all. -/
theorem conducts_of_goes (effect : item.stackEffect? = some (pop, push))
    (goes : Goes services pop push after.code.size frame result)
    (goesOn : item.endsBlock = false ∨ ∀ left, result ≠ .ok .proceed left) :
    Conducts services start items item last frame result := by
  obtain ⟨enough, depth, -⟩ :=
    alters_item effect _ _ _ meets.arrives.emitted meets.arrives.reachable
  have same := meets.depth
  refine ⟨fun _ left ended => ?_, fun owner index arguments left ended => ?_,
    fun error left ended blamed => ?_⟩
  · rcases goesOn with goesOn | never
    · obtain ⟨cursor, moved⟩ := goes.proceeds left ended
      have behind := meets.arrives.stands_behind effect goesOn
      have deep : left.frame.depth = before.depth - pop + push := by omega
      rw [cursor, deep]
      exact behind
    · exact absurd ended (never left)
  · exact absurd ended (goes.callFree owner index arguments left)
  · have full := goes.overflows error left ended blamed
    have fits := meets.room_before
    have fits' := meets.room_after
    omega

/-- An item whose code has its effect on the stack. -/
theorem conducts_of_codes (assembled : Assembled start items final body)
    (effect : item.stackEffect? = some (pop, push)) (goesOn : item.endsBlock = false)
    (codes : Within (Codes services pop push) (CodeBuilder.item item)) :
    Conducts services start items item last frame
      (Step.instruction services ⟨machine, frame, frame.pc⟩) := by
  obtain ⟨bytes, lays, isCode⟩ := codes _ _ _ meets.arrives.emitted
  obtain ⟨holds, size⟩ := meets.holds assembled lays
  have goes : Goes services pop push (frame.pc + bytes.length) frame
    (Step.instruction services ⟨machine, frame, frame.pc⟩) := isCode.goes holds
  rw [← size] at goes
  exact meets.conducts_of_goes effect goes (.inl goesOn)

end Meets

/-! ## Instructions that go on behind them -/

section Straight

variable (assembled : Assembled start items final body)

include assembled

/-- An instruction of the table of stack effects. -/
theorem conducts_plain {byte : UInt8}
    (meets : Meets start items body (.plain byte) before after frame)
    (builtin : ClassSource.StartsBuiltin services.sources)
    (conforms : frame.Conforms services machine)
    (effect : (CodeItem.plain byte).stackEffect? = some (pop, push)) :
    Conducts services start items (.plain byte) last frame
      (Step.instruction services ⟨machine, frame, frame.pc⟩) := by
  have emitted : emitPlain byte before = .ok ((), after) := meets.arrives.emitted
  obtain ⟨op, named, lays⟩ := lays_of_emitPlain emitted
  have listed : op.stackEffect = some (pop, push) := by
    rw [CodeItem.stackEffect?, named] at effect
    exact effect
  obtain ⟨holds, size⟩ := meets.holds assembled lays
  have opcode : Opcode.ofByte? op.byte = some op := by rw [Opcode.byte_of_ofByte? named, named]
  have begins : Step.instruction services ⟨machine, frame, frame.pc⟩ = _ :=
    Execution.instruction_of_opcode op opcode holds
  have goes : Goes services pop push after.code.size frame
      (Step.execute op services ⟨machine, frame, frame.pc + 1⟩) := by
    rw [size]
    exact Step.goes_execute builtin conforms.sound listed conforms.slotForm
  rw [begins]
  refine meets.conducts_of_goes effect goes ?_
  rw [CodeItem.endsBlock, named, Option.map_some, Option.getD_some]
  cases ends : op.endsBlock with
  | false => exact .inl rfl
  | true => exact .inr fun left => Step.not_proceed_of_endsBlock listed ends

/-- An instruction on a local variable that goes on behind it. -/
theorem conducts_onLocal {plain : Opcode → Step Unit}
    (meets : Meets start items body item before after frame)
    (onLocal : item.onLocal? = some plain) (effect : item.stackEffect? = some (pop, push))
    (goesOn : item.endsBlock = false)
    (moves : ∀ op cursor, Step.Moves pop push frame (plain op services ⟨machine, frame, cursor⟩))
    (still : ∀ op, Step.Still (plain op)) :
    Conducts services start items item last frame
      (Step.instruction services ⟨machine, frame, frame.pc⟩) := by
  obtain ⟨op, -, runs⟩ := assembled.exists_decodes meets.arrives.placed onLocal
  rw [runs frame meets.place services machine]
  exact meets.conducts_of_goes effect ((moves op _).goes (still op)) (.inl goesOn)

/-- An instruction that makes a multi-dimensional array. -/
theorem conducts_multianewarray {descriptor : String} {dimensions : UInt8}
    (meets : Meets start items body (.multianewarray descriptor dimensions) before after frame)
    (silent : services.Silent) :
    Conducts services start items (.multianewarray descriptor dimensions) last frame
      (Step.instruction services ⟨machine, frame, frame.pc⟩) := by
  obtain ⟨pool, -, lays⟩ := exists_of_inPool .multianewarray (Writer.u16 · ++ [dimensions])
    (PoolBuilder.plain_classRef descriptor).growing meets.arrives.emitted
  obtain ⟨holds, size⟩ := meets.holds assembled lays
  obtain ⟨begins, ahead⟩ :
      Step.instruction services ⟨machine, frame, frame.pc⟩ = _ ∧ Step.Ahead _ _ :=
    Step.instruction_of_holds (Opcode.ofByte?_byte (by decide)) holds
  obtain ⟨-, atDimensions⟩ := Step.ahead_append.mp ahead
  have operand : frame.code.bytes[frame.pc + 1 + 2]? = some dimensions := by
    rw [← Array.getElem?_toList]
    exact Holds.getElem? atDimensions
  have ran : Step.Ran services dimensions.toNat 1 (frame.pc + 1 + 3) frame
      (Step.newNestedArray services ⟨machine, frame, frame.pc + 1⟩) :=
    Step.ran_newNestedArray silent operand
  rw [begins]
  refine meets.conducts_of_goes rfl ?_ (.inl rfl)
  rw [size]
  exact ran.goes

/-- An instruction on a field. -/
theorem conducts_field {access : FieldAccess} {owner name descriptor : String}
    (meets : Meets start items body (.field access owner name descriptor) before after frame)
    (silent : services.Silent) (conforms : frame.Conforms services machine)
    (small : final.pool.Small) (fields : frame.owner.HasFields final.pool)
    (effect : (CodeItem.field access owner name descriptor).stackEffect? = some (pop, push)) :
    Conducts services start items (.field access owner name descriptor) last frame
      (Step.instruction services ⟨machine, frame, frame.pc⟩) := by
  obtain ⟨_, _, _, behind⟩ := meets.exists_behind assembled
  have grows := le_of_items behind
  obtain ⟨type, index, parsed, lays, denotes⟩ :=
    exists_of_emitField meets.arrives.emitted (small.of_le grows)
  have found := fields index _ (denotes.of_le grows)
  obtain ⟨holds, size⟩ := meets.holds assembled lays
  refine meets.conducts_of_goes effect ?_ (.inl rfl)
  rw [CodeItem.stackEffect?, parsed] at effect
  have goes : Goes services (access.stackEffect type.slots).1 (access.stackEffect type.slots).2 _
      frame (Step.instruction services ⟨machine, frame, frame.pc⟩) :=
    Step.goes_field silent conforms access found holds
  have counted : access.stackEffect type.slots = (pop, push) := Option.some.inj effect
  rw [counted, ← size] at goes
  exact goes

/-- A call. -/
theorem conducts_call {kind : CallKind} {owner name descriptor : String}
    (meets : Meets start items body (.call kind owner name descriptor) before after frame)
    (silent : services.Silent) :
    Conducts services start items (.call kind owner name descriptor) after.code.size frame
      (Step.instruction services ⟨machine, frame, frame.pc⟩) := by
  obtain ⟨operands, lays, length⟩ := exists_of_emitCall meets.arrives.emitted
  obtain ⟨holds, size⟩ := meets.holds assembled lays
  have calls : Calls services (frame.pc + (kind.opcode.byte :: operands).length) frame
      (Step.instruction services ⟨machine, frame, frame.pc⟩) :=
    Step.calls_of_holds silent kind length holds
  rw [← size] at calls
  refine ⟨fun _ left ended => ?_, fun called index arguments left ended => ?_, calls.proper⟩
  · obtain ⟨_, _, _, clash, -⟩ := calls.completes _ left ended
    cases clash
  · obtain ⟨_, _, _, same, cursor, -, depth⟩ := calls.completes _ left ended
    cases same
    exact ⟨⟨kind, owner, name, descriptor, rfl⟩, cursor, depth⟩

end Straight

/-! ## Instructions that transfer control -/

theorem conducts_of_fatal {error : Error} {left : StepState}
    (ended : result = .error (.fatal error) left) (proper : ¬ error.IsOverflow) :
    Conducts services start items item last frame result := by
  subst ended
  refine ⟨fun _ _ => nofun, fun _ _ _ _ => nofun, fun _ _ same blamed => ?_⟩
  cases same
  exact proper blamed.1

theorem conducts_of_proceeds {left : StepState} (ended : result = .ok .proceed left)
    (stands : Stands start items left.cursor left.frame.depth) :
    Conducts services start items item last frame result := by
  subst ended
  refine ⟨fun _ _ same => ?_, fun _ _ _ _ => nofun, fun _ _ => nofun⟩
  cases same
  exact stands

/-- Control goes to a place where it stands. -/
theorem conducts_of_branch {offset : Int32} {left : Frame} {place cursor : Nat}
    (same : frame.SamePlace left) (target : (frame.pc : Int) + offset.toInt = place)
    (stands : Stands start items place left.depth)
    (ended : result = Step.proceeding (Step.branch offset) services ⟨machine, left, cursor⟩) :
    Conducts services start items item last frame result := by
  obtain ⟨locals, stack, rfl⟩ := same
  have branches : Step.branch offset services ⟨machine, { frame with locals, stack }, cursor⟩ = _ :=
    Step.branch_of_place target
  by_cases inside : place < frame.code.bytes.size
  · rw [if_pos inside] at branches
    exact conducts_of_proceeds (ended.trans (Step.bind_eq_of_ok branches)) stands
  · rw [if_neg inside] at branches
    exact conducts_of_fatal (ended.trans (Step.bind_eq_of_error branches))
      (Exec.not_isOverflow_of_ne nofun)

/-- A switch. -/
theorem conducts_of_switch {switch : Step Unit} (place : Int32 → Nat)
    (meets : Meets start items body item before after frame)
    (begins : Step.instruction services ⟨machine, frame, frame.pc⟩ =
      Step.proceeding switch services ⟨machine, frame, frame.pc + 1⟩)
    (pops : ∀ error after, Frame.popInt frame = .error error after →
      switch services ⟨machine, frame, frame.pc + 1⟩ =
        .error (.fatal error) ⟨machine, after, frame.pc + 1⟩)
    (goes : ∀ index left, Frame.popInt frame = .ok index left →
      (∃ offset cursor, switch services ⟨machine, frame, frame.pc + 1⟩ =
          Step.branch offset services ⟨machine, left, cursor⟩ ∧
        (frame.pc : Int) + offset.toInt = place index) ∨
      ∃ fault state, switch services ⟨machine, frame, frame.pc + 1⟩ =
        Step.fault fault services state)
    (stands : ∀ index, Stands start items (place index) (before.depth - 1)) :
    Conducts services start items item last frame
      (Step.instruction services ⟨machine, frame, frame.pc⟩) := by
  obtain ⟨completes, fails⟩ := Frame.draws_popInt frame
  cases popped : Frame.popInt frame with
  | error error left =>
    exact conducts_of_fatal (begins.trans (Step.bind_eq_of_error (pops error left popped)))
      (fails error left popped)
  | ok index left =>
    rcases goes index left popped with ⟨offset, cursor, ran, target⟩ | ⟨fault, state, ran⟩
    · obtain ⟨-, -, depth⟩ := completes index left popped
      have same := meets.depth
      have deep : left.depth = before.depth - 1 := by omega
      exact conducts_of_branch (Frame.stays_popInt.samePlace popped) target (deep ▸ stands index)
        (begins.trans (Step.proceeding_congr ran))
    · exact conducts_of_fatal (begins.trans (Step.bind_eq_of_error ran))
        (Exec.not_isOverflow_of_ne nofun)

section Transfers

variable (assembled : Assembled start items final body)

include assembled

/-- A return from a subroutine. -/
theorem conducts_ret {index : UInt16}
    (meets : Meets start items body (.ret index) before after frame) :
    Conducts services start items (.ret index) last frame
      (Step.instruction services ⟨machine, frame, frame.pc⟩) := by
  obtain ⟨op, -, runs⟩ := assembled.exists_decodes meets.arrives.placed rfl
  have moves : Step.Moves 0 0 frame
      (Step.ret index.toNat services ⟨machine, frame, after.code.size⟩) :=
    Step.effect_ret index.toNat frame after.code.size
  rw [runs frame meets.place services machine]
  refine ⟨fun other => absurd rfl (other index), fun _ _ _ _ ended => ?_,
    fun error left ended blamed => ?_⟩
  · exact absurd ended Step.not_call_of_proceeding
  · have full := moves.proceeding.overflows error left ended blamed.1
    have fits := meets.room_before
    have same := meets.depth
    omega

/-- Each label that an item names is bound, and control that is passed to it stands there. -/
theorem stands_of_arrivals {label : Label} {depth : Nat}
    (meets : Meets start items body item before after frame) (consistent : Consistent start items)
    (named : label ∈ item.targets) (passed : (label, depth) ∈ item.arrivals before.depth) :
    Stands start items (final.place label) depth :=
  consistent.stands
    (placed_of_offset? assembled.fresh assembled.emitted
      (assembled.bound meets.arrives.placed named)) meets.arrives passed

/-- A branch. -/
theorem conducts_jump {byte : UInt8} {target : Label}
    (meets : Meets start items body (.jump byte target) before after frame)
    (consistent : Consistent start items) :
    Conducts services start items (.jump byte target) last frame
      (Step.instruction services ⟨machine, frame, frame.pc⟩) := by
  obtain ⟨op, pops, value, named, branches, next, goal, runs⟩ :=
    assembled.exists_of_jump meets.arrives.placed
  obtain ⟨begins, ahead⟩ := runs frame meets.place services machine
  have effect : (CodeItem.jump byte target).stackEffect? = some (pops, 0) := by
    rw [CodeItem.stackEffect?, named, Option.bind_some, branches]
    rfl
  obtain ⟨enough, -, -⟩ := alters_item effect _ _ _ meets.arrives.emitted meets.arrives.reachable
  have same := meets.depth
  have arrives (depth : Nat)
      (deep : depth + pops = frame.depth + if op = .jsr then 1 else 0) :
      Stands start items (final.place target) depth := by
    refine stands_of_arrivals assembled meets consistent List.mem_cons_self ?_
    simp only [CodeItem.arrivals, named, Option.some.injEq, Option.bind_some, branches]
    split
    · next calls =>
      subst calls
      cases branches
      rw [if_pos rfl] at deep
      exact List.mem_singleton.mpr (Prod.ext rfl (by omega))
    · next plain =>
      rw [if_neg plain] at deep
      exact List.mem_singleton.mpr (Prod.ext rfl (by dsimp only; omega))
  obtain ⟨completes, fails⟩ := Frame.decides_depth branches (frame.pc + 1 + 2) frame
  cases decided : Frame.decides (frame.pc + 1 + 2) op frame with
  | error error left =>
    obtain ⟨_, _, ended⟩ := Step.execute_of_not_decides services branches ahead decided
    refine conducts_of_fatal (begins.trans ended) fun overflow => ?_
    obtain ⟨rfl, full⟩ := fails error left decided overflow
    have deep := meets.room.stands (arrives (frame.depth + 1) (by cases branches; rfl))
    omega
  | ok taken left =>
    have runs : Step.execute op services _ = _ := Step.execute_of_decides branches ahead decided
    obtain ⟨deep, goesOn⟩ := completes taken left decided
    cases taken with
    | true =>
      rw [← meets.place.pc] at goal
      exact conducts_of_branch ((Frame.stays_decides _ op).samePlace decided) goal (arrives _ deep)
        (begins.trans runs)
    | false =>
      obtain ⟨onward, returns⟩ := goesOn rfl
      have ended : Step.instruction services ⟨machine, frame, frame.pc⟩ =
          .ok .proceed ⟨machine, left, frame.pc + 1 + 2⟩ := begins.trans runs
      have behind := meets.arrives.stands_behind effect (by
        rw [CodeItem.endsBlock, named]
        simpa using onward)
      rw [if_neg returns] at deep
      rw [next, ← meets.place.pc] at behind
      have depth : before.depth - pops + 0 = left.depth := by omega
      rw [depth] at behind
      exact conducts_of_proceeds ended behind

/-- A switch over a range. One without targets goes astray if its range seems to be that of all
ints. -/
theorem conducts_tableswitch {low : Int32} {default : Label} {targets : List Label}
    (meets : Meets start items body (.tableswitch low default targets) before after frame)
    (consistent : Consistent start items) (proper : targets = [] → low ≠ Int32.minValue) :
    Conducts services start items (.tableswitch low default targets) last frame
      (Step.instruction services ⟨machine, frame, frame.pc⟩) := by
  have placed := meets.arrives.placed
  obtain ⟨-, begins, -⟩ := assembled.tableSwitch_ahead placed frame meets.place services machine
  refine conducts_of_switch (fun index => final.place (tableTarget low default targets index))
    meets begins
    (fun _ _ failed => Step.bind_eq_of_error (Step.onFrame_error failed))
    (fun index left popped => ?_)
    fun index => ?_
  · by_cases range : targets ≠ [] ∧ low.toInt + targets.length - 1 ≤ Int32.maxValue.toInt
    · obtain ⟨-, goes⟩ :=
        assembled.tableSwitch_goes placed range.1 range.2 frame meets.place services machine
      exact .inl (goes index left popped)
    · refine .inr (assembled.tableSwitch_faults placed ?_ frame meets.place services machine popped)
      by_cases none : targets = []
      · exact .inr ⟨by rw [none]; rfl, proper none⟩
      · exact .inl (not_le.mp fun within => range ⟨none, within⟩)
  · have named : tableTarget low default targets index ∈ default :: targets := by
      unfold tableTarget
      split
      · cases found : targets[(index.toInt - low.toInt).toNat]? with
        | none => exact List.mem_cons_self
        | some target => exact List.mem_cons_of_mem _ (List.mem_of_getElem? found)
      · exact List.mem_cons_self
    exact stands_of_arrivals assembled meets consistent named
      (List.mem_map.mpr ⟨_, named, rfl⟩)

/-- A switch over pairs. -/
theorem conducts_lookupswitch {default : Label} {pairs : List (Int32 × Label)}
    (meets : Meets start items body (.lookupswitch default pairs) before after frame)
    (consistent : Consistent start items) :
    Conducts services start items (.lookupswitch default pairs) last frame
      (Step.instruction services ⟨machine, frame, frame.pc⟩) := by
  have placed := meets.arrives.placed
  obtain ⟨begins, goes⟩ := assembled.lookupSwitch_goes placed frame meets.place services machine
  refine conducts_of_switch (fun key => final.place (lookupTarget default pairs key)) meets begins
    (fun _ _ failed => Step.bind_eq_of_error (Step.onFrame_error failed))
    (fun key left popped => .inl (goes key left popped)) fun key => ?_
  have named : lookupTarget default pairs key ∈ default :: pairs.map Prod.snd := by
    unfold lookupTarget
    cases found : pairs.find? (·.1 = key) with
    | none => exact List.mem_cons_self
    | some pair =>
      exact List.mem_cons_of_mem _ (List.mem_map.mpr ⟨pair, List.mem_of_find?_eq_some found, rfl⟩)
  exact stands_of_arrivals assembled meets consistent named (List.mem_map.mpr ⟨_, named, rfl⟩)

end Transfers

/-- **The machine executes the items of a body as the depth is followed along it.** -/
theorem Assembled.conducts (assembled : Assembled start items final body)
    (meets : Meets start items body item before after frame) (consistent : Consistent start items)
    (proper : ∀ default, item ≠ .tableswitch Int32.minValue default []) (small : final.pool.Small)
    (builtin : ClassSource.StartsBuiltin services.sources) (silent : services.Silent)
    (fields : frame.owner.HasFields final.pool) (conforms : frame.Conforms services machine)
    (effect : item.stackEffect? = some (pop, push)) :
    Conducts services start items item after.code.size frame
      (Step.instruction services ⟨machine, frame, frame.pc⟩) := by
  cases item with
  | plain byte => exact conducts_plain assembled meets builtin conforms effect
  | load kind index =>
    cases effect
    exact conducts_onLocal assembled meets rfl rfl rfl
      (fun op cursor => Step.effect_load op kind index.toNat frame cursor)
      fun op => Step.still_load op kind index.toNat
  | store kind index =>
    cases effect
    exact conducts_onLocal assembled meets rfl rfl rfl
      (fun op cursor => Step.moves_store op kind index.toNat conforms.slotForm)
      fun op => Step.still_store op kind index.toNat
  | iinc index delta =>
    cases effect
    exact conducts_onLocal assembled meets rfl rfl rfl
      (fun _ cursor => Step.effect_increment index.toNat delta.toInt32 frame cursor)
      fun _ => Step.still_increment index.toNat delta.toInt32
  | iconst value => exact meets.conducts_of_codes assembled rfl rfl (codes_emitInt value)
  | lconst value => exact meets.conducts_of_codes assembled rfl rfl (codes_emitLong value)
  | fconst bits => exact meets.conducts_of_codes assembled rfl rfl (codes_emitFloat bits)
  | dconst bits => exact meets.conducts_of_codes assembled rfl rfl (codes_emitDouble bits)
  | stringConst text => exact meets.conducts_of_codes assembled rfl rfl (codes_stringConst text)
  | classConst name => exact meets.conducts_of_codes assembled rfl rfl (codes_classConst name)
  | field access owner name descriptor =>
    exact conducts_field assembled meets silent conforms small fields effect
  | call kind owner name descriptor => exact conducts_call assembled meets silent
  | classUse use name =>
    exact meets.conducts_of_codes assembled rfl rfl (codes_classUse silent use name)
  | newarray type => exact meets.conducts_of_codes assembled rfl rfl (codes_newarray silent type)
  | multianewarray descriptor dimensions => exact conducts_multianewarray assembled meets silent
  | jump byte target => exact conducts_jump assembled meets consistent
  | ret index => exact conducts_ret assembled meets
  | tableswitch low default targets =>
    exact conducts_tableswitch assembled meets consistent fun none least => by
      subst none least
      exact proper default rfl
  | lookupswitch default pairs => exact conducts_lookupswitch assembled meets consistent
  | _ => cases effect

end CodeBuilder

end JavaMachine
