import JavaMachine.Proofs.Assembler.Transfer

/-! # The stack along a body

What an item of a body does to the depth that is followed along the body: an instruction pops and
pushes slots (`CodeBuilder.alters_item`), and other items leave it as it is. Where control arrives,
it goes on behind an item with the depth that is followed there, or at a label with the depth that
the label has where it is bound, if the labels are consistent (`CodeBuilder.Stands`). -/

namespace JavaMachine

namespace CodeItem

open CodeBuilder (branchPops)

/-- The slots that an instruction of a body pops and pushes. -/
def stackEffect? : CodeItem → Option (Nat × Nat)
  | plain byte => (Opcode.ofByte? byte).bind Opcode.stackEffect
  | load kind _ => some (0, kind.slots)
  | store kind _ => some (kind.slots, 0)
  | iconst _ | fconst _ | stringConst _ | classConst _ => some (0, 1)
  | lconst _ | dconst _ => some (0, 2)
  | iinc _ _ | ret _ => some (0, 0)
  | field access _ _ descriptor =>
    (FieldType.ofDescriptor? descriptor).map fun type => access.stackEffect type.slots
  | call kind _ _ descriptor =>
    (MethodDescriptor.ofDescriptor? descriptor).map fun method =>
      (method.parameterSlots + (if kind = .static then 0 else 1),
        (method.returnType.map FieldType.slots).getD 0)
  | classUse use _ => some (use.pops, 1)
  | newarray _ => some (1, 1)
  | multianewarray _ dimensions => some (dimensions.toNat, 1)
  | jump byte _ => ((Opcode.ofByte? byte).bind branchPops).map fun pops => (pops, 0)
  | tableswitch _ _ _ | lookupswitch _ _ => some (1, 0)
  | bind _ | handler _ _ _ _ | raw _ | maxStack _ | maxLocals _ => none

/-- Control never passes from one of these to what is behind it. -/
def endsBlock : CodeItem → Bool
  | plain byte => ((Opcode.ofByte? byte).map Opcode.endsBlock).getD false
  | jump byte _ => Opcode.ofByte? byte = some .goto
  | ret _ | tableswitch _ _ _ | lookupswitch _ _ => true
  | _ => false

/-- The labels that an item passes control to where the stack is as deep as that before it, each
with the depth there. A call of a subroutine leaves the place to return to on the stack. -/
def arrivals (depth : Nat) : CodeItem → List (Label × Nat)
  | jump byte target =>
    if Opcode.ofByte? byte = some .jsr then [(target, depth + 1)]
    else (((Opcode.ofByte? byte).bind branchPops).map fun pops => (target, depth - pops)).toList
  | tableswitch _ default targets => (default :: targets).map fun target => (target, depth - 1)
  | lookupswitch default pairs =>
    (default :: pairs.map Prod.snd).map fun target => (target, depth - 1)
  | _ => []

/-- Bytes that are emitted as they are given. -/
def IsRaw : CodeItem → Prop
  | raw _ => True
  | _ => False

end CodeItem

namespace CodeBuilder

variable {start before middle after final : CodeBuilder} {items : List CodeItem} {item : CodeItem}
  {body : CodeBody Attribute} {α β : Type} {pop push depth offset : Nat} {ends : Bool}

/-! ## The depth behind an item -/

/-- The depth of the stack stays, and whether control arrives. -/
structure Keeps (before after : CodeBuilder) : Prop where
  depth : after.depth = before.depth
  reachable : after.reachable = before.reachable

/-- Where control arrives, so many slots are popped and others pushed, and control goes on unless it
ends. -/
def Alters (pop push : Nat) (ends : Bool) (before after : CodeBuilder) : Prop :=
  before.reachable = true →
    pop ≤ before.depth ∧ after.depth = before.depth - pop + push ∧ after.reachable = !ends

theorem keeps_modify {change : CodeBuilder → CodeBuilder}
    (depth : ∀ builder, (change builder).depth = builder.depth)
    (reachable : ∀ builder, (change builder).reachable = builder.reachable) :
    Within Keeps (modify change : Assembling PUnit) :=
  within_modify fun builder => ⟨depth builder, reachable builder⟩

theorem keeps_pure (value : α) : Within Keeps (pure value : Assembling α) := by
  intro before result after ended
  cases ended
  exact ⟨rfl, rfl⟩

theorem keeps_get : Within Keeps (get : Assembling CodeBuilder) := by
  intro before result after ended
  cases ended
  exact ⟨rfl, rfl⟩

theorem keeps_seq {step : Assembling α} {next : α → Assembling β} (first : Within Keeps step)
    (rest : ∀ value, Within Keeps (next value)) : Within Keeps (step >>= next) := by
  intro before result after ended
  obtain ⟨value, middle, began, ended⟩ := Assembling.exists_of_bind ended
  have near := first before value middle began
  have far := rest value middle result after ended
  exact ⟨far.depth.trans near.depth, far.reachable.trans near.reachable⟩

theorem keeps_forM {visited : List α} {visit : α → Assembling PUnit}
    (each : ∀ item, Within Keeps (visit item)) : Within Keeps (visited.forM visit) := by
  rw [List.forM_eq_forM]
  induction visited with
  | nil => exact keeps_pure _
  | cons first rest ih =>
    rw [List.forM_cons]
    exact keeps_seq (each first) fun _ => ih

theorem keeps_inPool (action : PoolBuilding α) : Within Keeps (inPool action) := by
  intro before result after ended
  cases ended
  exact ⟨rfl, rfl⟩

theorem keeps_emit (bytes : List UInt8) : Within Keeps (emit bytes) :=
  keeps_modify (fun _ => rfl) fun _ => rfl

theorem keeps_emitOp (op : Opcode) (operands : List UInt8) : Within Keeps (emitOp op operands) :=
  keeps_emit _

theorem keeps_touchLocal (index : UInt16) (slots : Nat) : Within Keeps (touchLocal index slots) :=
  keeps_modify (fun _ => rfl) fun _ => rfl

theorem keeps_learnTarget (label : Label) (depth : Nat) :
    Within Keeps (learnTarget label depth) := by
  refine keeps_seq keeps_get fun builder => ?_
  split
  · exact keeps_modify (fun _ => rfl) fun _ => rfl
  · exact keeps_pure _

theorem keeps_emitOffset (label : Label) (start : Nat) (wide : Bool) :
    Within Keeps (emitOffset label start wide) :=
  keeps_seq (keeps_modify (fun _ => rfl) fun _ => rfl) fun _ => keeps_emit _

theorem keeps_emitSwitchOffset (label : Label) (start : Nat) :
    Within Keeps (emitSwitchOffset label start) :=
  keeps_seq keeps_get fun _ => keeps_seq (keeps_learnTarget _ _) fun _ => keeps_emitOffset _ _ _

theorem keeps_pad : Within Keeps pad :=
  keeps_seq keeps_get fun _ => keeps_emit _

theorem keeps_emitLocal (long : Opcode) (short : Fin 4 → Opcode) (index : UInt16) (slots : Nat) :
    Within Keeps (emitLocal long short index slots) := by
  refine keeps_seq (keeps_touchLocal _ _) fun _ => ?_
  split
  · exact keeps_emitOp _ _
  · split
    · exact keeps_emitOp _ _
    · exact keeps_emitOp _ _

theorem alters_adjust (pop push : Nat) : Within (Alters pop push false) (adjust pop push) := by
  intro before value after ended reachable
  unfold adjust at ended
  change (if before.reachable = true then _ else _ : Assembling Unit) before = _ at ended
  rw [if_pos reachable] at ended
  change (if before.depth < pop then _ else _ : Assembling Unit) before = _ at ended
  split at ended
  · cases ended
  · next enough =>
    cases ended
    exact ⟨Nat.le_of_not_lt enough, rfl, reachable⟩

theorem alters_of_keeps {step : Assembling α} (keeps : Within Keeps step) :
    Within (Alters 0 0 false) step := by
  intro before value after ended reachable
  have kept := keeps before value after ended
  exact ⟨Nat.zero_le _, kept.depth, kept.reachable.trans reachable⟩

theorem keeps_seq_alters {step : Assembling α} {next : α → Assembling β} (first : Within Keeps step)
    (rest : ∀ value, Within (Alters pop push ends) (next value)) :
    Within (Alters pop push ends) (step >>= next) := by
  intro before result after ended reachable
  obtain ⟨value, middle, began, ended⟩ := Assembling.exists_of_bind ended
  have near := first before value middle began
  have far := rest value middle result after ended (near.reachable.trans reachable)
  rw [near.depth] at far
  exact far

theorem alters_seq_keeps {step : Assembling α} {next : α → Assembling β}
    (first : Within (Alters pop push ends) step) (rest : ∀ value, Within Keeps (next value)) :
    Within (Alters pop push ends) (step >>= next) := by
  intro before result after ended reachable
  obtain ⟨value, middle, began, ended⟩ := Assembling.exists_of_bind ended
  obtain ⟨enough, depth, goes⟩ := first before value middle began reachable
  have far := rest value middle result after ended
  exact ⟨enough, far.depth.trans depth, far.reachable.trans goes⟩

/-- Nothing passes control to what is behind the last step. -/
theorem alters_seq_endBlock {step : Assembling PUnit} (first : Within (Alters pop push false) step)
    (ends : Bool) : Within (Alters pop push ends) (do
      step
      if ends then endBlock) := by
  cases ends with
  | false => exact alters_seq_keeps first fun _ => keeps_pure _
  | true =>
    intro before result after ended reachable
    obtain ⟨value, middle, began, ended⟩ := Assembling.exists_of_bind ended
    obtain ⟨enough, depth, -⟩ := first before value middle began reachable
    cases ended
    exact ⟨enough, depth, rfl⟩

theorem alters_emitConstant (index : UInt16) : Within (Alters 0 1 false) (emitConstant index) := by
  refine alters_seq_keeps (alters_adjust 0 1) fun _ => ?_
  split
  · exact keeps_emitOp _ _
  · exact keeps_emitOp _ _

theorem alters_emitWideConstant (index : UInt16) :
    Within (Alters 0 2 false) (emitWideConstant index) :=
  alters_seq_keeps (alters_adjust 0 2) fun _ => keeps_emitOp _ _

theorem alters_emitPlain {byte : UInt8}
    (effect : (CodeItem.plain byte).stackEffect? = some (pop, push)) :
    Within (Alters pop push (CodeItem.plain byte).endsBlock) (emitPlain byte) := by
  rw [CodeItem.stackEffect?, Option.bind_eq_some_iff] at effect
  obtain ⟨op, named, listed⟩ := effect
  have ends : (CodeItem.plain byte).endsBlock = op.endsBlock := by
    simp only [CodeItem.endsBlock, named, Option.map_some, Option.getD_some]
  unfold emitPlain
  simp only [named, listed, ends]
  have first : Within (Alters pop push false) (do adjust pop push; emitOp op []) :=
    alters_seq_keeps (alters_adjust pop push) fun _ => keeps_emitOp _ _
  simpa only [bind_assoc] using alters_seq_endBlock first op.endsBlock

theorem alters_emitInt (value : Int32) : Within (Alters 0 1 false) (emitInt value) := by
  unfold emitInt
  split
  · exact alters_seq_keeps (alters_adjust 0 1) fun _ => keeps_emit _
  · split
    · exact alters_seq_keeps (alters_adjust 0 1) fun _ => keeps_emitOp _ _
    · split
      · exact alters_seq_keeps (alters_adjust 0 1) fun _ => keeps_emitOp _ _
      · exact keeps_seq_alters (keeps_inPool _) fun _ => alters_emitConstant _

theorem alters_emitLong (value : Int64) : Within (Alters 0 2 false) (emitLong value) := by
  unfold emitLong
  split
  · exact alters_seq_keeps (alters_adjust 0 2) fun _ => keeps_emitOp _ _
  · exact keeps_seq_alters (keeps_inPool _) fun _ => alters_emitWideConstant _

theorem alters_emitFloat (bits : UInt32) : Within (Alters 0 1 false) (emitFloat bits) := by
  unfold emitFloat
  split
  · exact alters_seq_keeps (alters_adjust 0 1) fun _ => keeps_emitOp _ _
  · exact keeps_seq_alters (keeps_inPool _) fun _ => alters_emitConstant _

theorem alters_emitDouble (bits : UInt64) : Within (Alters 0 2 false) (emitDouble bits) := by
  unfold emitDouble
  split
  · exact alters_seq_keeps (alters_adjust 0 2) fun _ => keeps_emitOp _ _
  · exact keeps_seq_alters (keeps_inPool _) fun _ => alters_emitWideConstant _

theorem keeps_emitIncrement (index : UInt16) (delta : Int16) :
    Within Keeps (emitIncrement index delta) := by
  refine keeps_seq (keeps_touchLocal _ _) fun _ => ?_
  split
  · exact keeps_emitOp _ _
  · exact keeps_emitOp _ _

theorem alters_emitField {access : FieldAccess} {owner name descriptor : String}
    (effect : (CodeItem.field access owner name descriptor).stackEffect? = some (pop, push)) :
    Within (Alters pop push false) (emitField access owner name descriptor) := by
  obtain ⟨type, parsed, effect⟩ := Option.map_eq_some_iff.mp effect
  unfold emitField
  simp only [parsed, effect]
  exact alters_seq_keeps (alters_adjust pop push) fun _ => keeps_seq (keeps_inPool _) fun _ =>
    keeps_emitOp _ _

theorem alters_emitCall {kind : CallKind} {owner name descriptor : String}
    (effect : (CodeItem.call kind owner name descriptor).stackEffect? = some (pop, push)) :
    Within (Alters pop push false) (emitCall kind owner name descriptor) := by
  obtain ⟨method, parsed, effect⟩ := Option.map_eq_some_iff.mp effect
  cases effect
  unfold emitCall
  simp only [parsed]
  refine alters_seq_keeps (alters_adjust _ _) fun _ => ?_
  split
  · exact keeps_seq (keeps_inPool _) fun _ => keeps_emitOp _ _
  · exact keeps_seq (keeps_inPool _) fun _ => keeps_emitOp _ _

theorem alters_emitJump {byte : UInt8} {target : Label}
    (effect : (CodeItem.jump byte target).stackEffect? = some (pop, push)) :
    Within (Alters pop push (CodeItem.jump byte target).endsBlock) (emitJump byte target) := by
  rw [CodeItem.stackEffect?, Option.map_eq_some_iff] at effect
  obtain ⟨pops, branches, same⟩ := effect
  rw [Option.bind_eq_some_iff] at branches
  obtain ⟨op, named, branches⟩ := branches
  cases same
  unfold emitJump CodeItem.endsBlock
  simp only [named, branches, Option.bind_some, Option.map_some, Option.some.injEq]
  intro before result after ended
  obtain ⟨_, popped, adjusted, ended⟩ := Assembling.exists_of_bind ended
  obtain ⟨_, _, got, ended⟩ := Assembling.exists_of_bind ended
  cases got
  obtain ⟨_, _, got, ended⟩ := Assembling.exists_of_bind ended
  cases got
  have rest : Within (Alters 0 0 (decide (op = .goto))) (do
      learnTarget target (if op = .jsr then popped.depth + 1 else popped.depth)
      emitOp op []
      emitOffset target popped.code.size false
      if op = .goto then endBlock) := by
    have first : Within Keeps (do
        learnTarget target (if op = .jsr then popped.depth + 1 else popped.depth)
        emitOp op []
        emitOffset target popped.code.size false) :=
      keeps_seq (keeps_learnTarget _ _) fun _ => keeps_seq (keeps_emitOp _ _) fun _ =>
        keeps_emitOffset _ _ _
    have whole := alters_seq_endBlock (alters_of_keeps first) (decide (op = .goto))
    simpa only [bind_assoc, decide_eq_true_eq] using whole
  intro reachable
  obtain ⟨enough, depth, goes⟩ := alters_adjust pop 0 _ _ _ adjusted reachable
  obtain ⟨-, depth', goes'⟩ := rest popped _ _ ended goes
  exact ⟨enough, depth'.trans depth, goes'⟩

theorem alters_emitRet (index : UInt16) : Within (Alters 0 0 true) (emitRet index) := by
  have first : Within Keeps (do
      touchLocal index 1
      if index ≤ 0xff then emitOp .ret [index.toUInt8]
      else emitOp .wide (Opcode.ret.byte :: Writer.u16 index)) := by
    refine keeps_seq (keeps_touchLocal _ _) fun _ => ?_
    split
    · exact keeps_emitOp _ _
    · exact keeps_emitOp _ _
  have whole := alters_seq_endBlock (alters_of_keeps first) true
  unfold emitRet
  simp only [bind_assoc, if_true] at whole
  convert whole using 3
  split <;> rfl

/-- A switch pops its operand, and the rest of it ends the block. -/
theorem alters_switch (op : Opcode) {next : Nat → Assembling PUnit}
    (rest : ∀ start, Within Keeps (next start)) : Within (Alters 1 0 true) (do
      adjust 1 0
      let start := (← get).code.size
      emitOp op []
      pad
      next start
      endBlock) := by
  have first : Within (Alters 1 0 false) (do
      adjust 1 0
      let start := (← get).code.size
      emitOp op []
      pad
      next start) :=
    alters_seq_keeps (alters_adjust 1 0) fun _ => keeps_seq keeps_get fun _ =>
      keeps_seq (keeps_emitOp _ _) fun _ => keeps_seq keeps_pad fun _ => rest _
  have whole := alters_seq_endBlock first true
  simpa only [bind_assoc, if_true] using whole

theorem alters_emitTableswitch (low : Int32) (default : Label) (targets : List Label) :
    Within (Alters 1 0 true) (emitTableswitch low default targets) := by
  have rest (start : Nat) : Within Keeps (do
      emitSwitchOffset default start
      emit (Writer.u32 low.toUInt32)
      emit (Writer.u32 (low + (Int32.ofNat targets.length - 1)).toUInt32)
      targets.forM fun target => emitSwitchOffset target start) :=
    keeps_seq (keeps_emitSwitchOffset _ _) fun _ => keeps_seq (keeps_emit _) fun _ =>
      keeps_seq (keeps_emit _) fun _ => keeps_forM fun _ => keeps_emitSwitchOffset _ _
  have whole := alters_switch .tableswitch rest
  simp only [bind_assoc] at whole
  exact whole

theorem alters_emitLookupswitch (default : Label) (pairs : List (Int32 × Label)) :
    Within (Alters 1 0 true) (emitLookupswitch default pairs) := by
  have rest (start : Nat) : Within Keeps (do
      emitSwitchOffset default start
      emit (Writer.u32 (UInt32.ofNat pairs.length))
      (sortPairs pairs).forM fun pair => do
        emit (Writer.u32 pair.1.toUInt32)
        emitSwitchOffset pair.2 start) :=
    keeps_seq (keeps_emitSwitchOffset _ _) fun _ => keeps_seq (keeps_emit _) fun _ =>
      keeps_forM fun _ => keeps_seq (keeps_emit _) fun _ => keeps_emitSwitchOffset _ _
  have whole := alters_switch .lookupswitch rest
  simp only [bind_assoc] at whole
  exact whole

/-- **An instruction of a body changes the depth by the slots that it pops and pushes.** -/
theorem alters_item (effect : item.stackEffect? = some (pop, push)) :
    Within (Alters pop push item.endsBlock) (CodeBuilder.item item) := by
  cases item with
  | plain byte => exact alters_emitPlain effect
  | load kind index =>
    cases effect
    exact keeps_seq_alters (keeps_emitLocal _ _ _ _) fun _ => alters_adjust _ _
  | store kind index =>
    cases effect
    exact alters_seq_keeps (alters_adjust _ _) fun _ => keeps_emitLocal _ _ _ _
  | iconst value =>
    cases effect
    exact alters_emitInt value
  | lconst value =>
    cases effect
    exact alters_emitLong value
  | fconst bits =>
    cases effect
    exact alters_emitFloat bits
  | dconst bits =>
    cases effect
    exact alters_emitDouble bits
  | stringConst text | classConst name =>
    cases effect
    exact keeps_seq_alters (keeps_inPool _) fun _ => alters_emitConstant _
  | iinc index delta =>
    cases effect
    exact alters_of_keeps (keeps_emitIncrement index delta)
  | field access owner name descriptor => exact alters_emitField effect
  | call kind owner name descriptor => exact alters_emitCall effect
  | classUse use name =>
    cases effect
    exact alters_seq_keeps (alters_adjust _ _) fun _ => keeps_seq (keeps_inPool _) fun _ =>
      keeps_emitOp _ _
  | newarray type =>
    cases effect
    exact alters_seq_keeps (alters_adjust _ _) fun _ => keeps_emitOp _ _
  | multianewarray descriptor dimensions =>
    cases effect
    exact alters_seq_keeps (alters_adjust _ _) fun _ => keeps_seq (keeps_inPool _) fun _ =>
      keeps_emitOp _ _
  | jump byte target => exact alters_emitJump effect
  | ret index =>
    cases effect
    exact alters_emitRet index
  | tableswitch low default targets =>
    cases effect
    exact alters_emitTableswitch low default targets
  | lookupswitch default pairs =>
    cases effect
    exact alters_emitLookupswitch default pairs
  | _ => cases effect

/-- What is emitted is an instruction with an effect on the stack, or given bytes, or else nothing:
then control stays where it is. -/
theorem cases_of_item (emitted : CodeBuilder.item item before = .ok ((), after)) :
    (∃ pop push, item.stackEffect? = some (pop, push)) ∨ item.IsRaw ∨
      (before.reachable = true → Keeps before after ∧ after.code = before.code) := by
  cases item with
  | plain byte =>
    have emitted : emitPlain byte before = .ok ((), after) := emitted
    unfold emitPlain at emitted
    rw [CodeItem.stackEffect?]
    cases named : Opcode.ofByte? byte with
    | none =>
      simp only [named] at emitted
      cases emitted
    | some op =>
      simp only [named] at emitted
      cases listed : op.stackEffect with
      | none =>
        simp only [listed] at emitted
        cases emitted
      | some effect => exact .inl ⟨effect.1, effect.2, listed⟩
  | field access owner name descriptor =>
    have emitted : emitField access owner name descriptor before = .ok ((), after) := emitted
    unfold emitField at emitted
    rw [CodeItem.stackEffect?]
    cases parsed : FieldType.ofDescriptor? descriptor with
    | none =>
      simp only [parsed] at emitted
      cases emitted
    | some type => exact .inl ⟨_, _, rfl⟩
  | call kind owner name descriptor =>
    have emitted : emitCall kind owner name descriptor before = .ok ((), after) := emitted
    unfold emitCall at emitted
    rw [CodeItem.stackEffect?]
    cases parsed : MethodDescriptor.ofDescriptor? descriptor with
    | none =>
      simp only [parsed] at emitted
      cases emitted
    | some method => exact .inl ⟨_, _, rfl⟩
  | jump byte target =>
    have emitted : emitJump byte target before = .ok ((), after) := emitted
    obtain ⟨op, pops, named, branches, -⟩ := lays_of_emitJump emitted
    refine .inl ⟨pops, 0, ?_⟩
    rw [CodeItem.stackEffect?, named, Option.bind_some, branches]
    rfl
  | bind label =>
    refine .inr (.inr fun reachable => ?_)
    rcases bindLabel_cases emitted with ⟨-, labels, rfl⟩ | ⟨unreachable, -⟩
    · exact ⟨⟨rfl, rfl⟩, rfl⟩
    · rw [reachable] at unreachable
      cases unreachable
  | handler first stop target type =>
    refine .inr (.inr fun _ => ?_)
    obtain ⟨pool, catchType, -, -, rfl⟩ := addHandler_eq_ok emitted
    exact ⟨⟨rfl, rfl⟩, rfl⟩
  | raw bytes => exact .inr (.inl trivial)
  | maxStack slots | maxLocals slots =>
    cases emitted
    exact .inr (.inr fun _ => ⟨⟨rfl, rfl⟩, rfl⟩)
  | _ => exact .inl ⟨_, _, rfl⟩

/-! ## Where control stands -/

/-- Control arrives at an item of a body: what is before it leads there. -/
structure Arrives (start : CodeBuilder) (items : List CodeItem) (item : CodeItem)
    (before after : CodeBuilder) : Prop where
  leads : ∃ front back, items = front ++ item :: back ∧
    front.forM CodeBuilder.item start = .ok ((), before)
  emitted : CodeBuilder.item item before = .ok ((), after)
  reachable : before.reachable = true

/-- Control arrives at an offset of a body, with a stack of a depth. -/
def Stands (start : CodeBuilder) (items : List CodeItem) (offset depth : Nat) : Prop :=
  ∃ front back builder, items = front ++ back ∧
    front.forM CodeBuilder.item start = .ok ((), builder) ∧ builder.reachable = true ∧
    builder.code.size = offset ∧ builder.depth = depth

theorem Arrives.placed (arrives : Arrives start items item before after) :
    Placed start items item before.code.size after.code.size := by
  obtain ⟨front, back, split, reached⟩ := arrives.leads
  exact ⟨front, back, before, after, split, reached, arrives.emitted, rfl, rfl⟩

theorem Arrives.stands (arrives : Arrives start items item before after) :
    Stands start items before.code.size before.depth := by
  obtain ⟨front, back, split, reached⟩ := arrives.leads
  exact ⟨front, item :: back, before, split, reached, arrives.reachable, rfl, rfl⟩

theorem forM_concat_eq_ok {front : List CodeItem}
    (reached : front.forM CodeBuilder.item start = .ok ((), before))
    (emitted : CodeBuilder.item item before = .ok ((), after)) :
    (front ++ [item]).forM CodeBuilder.item start = .ok ((), after) :=
  forM_append_eq_ok.mpr ⟨before, reached, forM_cons_eq_ok.mpr ⟨after, emitted, rfl⟩⟩

/-- Behind an instruction that does not end the block, control stands with the depth that the
instruction leaves. -/
theorem Arrives.stands_behind (arrives : Arrives start items item before after)
    (effect : item.stackEffect? = some (pop, push)) (goesOn : item.endsBlock = false) :
    Stands start items after.code.size (before.depth - pop + push) := by
  obtain ⟨front, back, split, reached⟩ := arrives.leads
  obtain ⟨-, depth, reachable⟩ := alters_item effect _ _ _ arrives.emitted arrives.reachable
  rw [goesOn] at reachable
  exact ⟨front ++ [item], back, after, by rw [split, List.append_assoc]; rfl,
    forM_concat_eq_ok reached arrives.emitted, reachable, rfl, depth⟩

/-- Where control stands, an instruction is next, or the code ends. -/
theorem Stands.cases (emitted : items.forM CodeBuilder.item start = .ok ((), final))
    (typed : ∀ item ∈ items, ¬ item.IsRaw) (stands : Stands start items offset depth) :
    final.code.size = offset ∨ ∃ item before after pop push, Arrives start items item before after ∧
      item.stackEffect? = some (pop, push) ∧ before.code.size = offset ∧ before.depth = depth := by
  obtain ⟨front, back, builder, split, reached, reachable, place, deep⟩ := stands
  induction back generalizing front builder with
  | nil =>
    left
    rw [List.append_nil] at split
    subst split
    rw [reached] at emitted
    cases emitted
    exact place
  | cons item rest ih =>
    subst split
    obtain ⟨middle, reached', behind⟩ := forM_append_eq_ok.mp emitted
    rw [reached] at reached'
    cases reached'
    obtain ⟨between, added, -⟩ := forM_cons_eq_ok.mp behind
    rcases cases_of_item added with ⟨pop, push, effect⟩ | raw | silent
    · exact .inr ⟨item, builder, between, pop, push,
        ⟨⟨front, rest, rfl, reached⟩, added, reachable⟩, effect, place, deep⟩
    · exact absurd raw (typed item (by simp))
    · obtain ⟨keeps, same⟩ := silent reachable
      refine ih (front ++ [item]) between (by rw [List.append_assoc]; rfl)
        (forM_concat_eq_ok reached added) (keeps.reachable.trans reachable) ?_
        (keeps.depth.trans deep)
      rw [same]
      exact place

/-! ## Labels -/

/-- The labels of a body are consistent: control arrives at each of them with the depth that is
followed behind it, from wherever control is passed to it, and with a single slot if it is the label
of a handler. Control that arrives from the item before it has that depth anyway. -/
def Consistent (start : CodeBuilder) (items : List CodeItem) : Prop :=
  ∀ front label back builder bound, items = front ++ .bind label :: back →
    front.forM CodeBuilder.item start = .ok ((), builder) →
    CodeBuilder.item (.bind label) builder = .ok ((), bound) →
    (∀ item before after, Arrives start items item before after →
      ∀ depth, (label, depth) ∈ item.arrivals before.depth → depth = bound.depth) ∧
    ∀ guard ∈ items.flatMap CodeItem.guards, guard.2.2 = label → bound.depth = 1

/-- Control stands behind a label, with the depth that is followed there. -/
theorem exists_stands_of_bound {label : Label} {place next : Nat}
    (placed : Placed start items (.bind label) place next) :
    ∃ front back builder bound, items = front ++ .bind label :: back ∧
      front.forM CodeBuilder.item start = .ok ((), builder) ∧
      CodeBuilder.item (.bind label) builder = .ok ((), bound) ∧
      Stands start items place bound.depth := by
  obtain ⟨front, back, builder, bound, split, reached, emitted, rfl, -⟩ := placed
  refine ⟨front, back, builder, bound, split, reached, emitted, front ++ [.bind label], back, bound,
    by rw [split, List.append_assoc]; rfl, forM_concat_eq_ok reached emitted, ?_, ?_, rfl⟩
  · rcases bindLabel_cases emitted with ⟨reachable, labels, rfl⟩ | ⟨-, rfl⟩
    · exact reachable
    · rfl
  · rcases bindLabel_cases emitted with ⟨-, labels, rfl⟩ | ⟨-, rfl⟩
    · rfl
    · rfl

/-- Control that is passed to a label stands there. -/
theorem Consistent.stands (consistent : Consistent start items) {label : Label} {place next : Nat}
    (placed : Placed start items (.bind label) place next)
    (arrives : Arrives start items item before after)
    (passed : (label, depth) ∈ item.arrivals before.depth) : Stands start items place depth := by
  obtain ⟨front, back, builder, bound, split, reached, emitted, stands⟩ :=
    exists_stands_of_bound placed
  obtain ⟨agrees, -⟩ := consistent front label back builder bound split reached emitted
  rw [agrees item before after arrives depth passed]
  exact stands

/-- What a handler catches stands alone on the stack. -/
theorem Consistent.stands_of_guard (consistent : Consistent start items)
    {guard : Label × Label × Label} {place next : Nat}
    (handles : guard ∈ items.flatMap CodeItem.guards)
    (placed : Placed start items (.bind guard.2.2) place next) : Stands start items place 1 := by
  obtain ⟨front, back, builder, bound, split, reached, emitted, stands⟩ :=
    exists_stands_of_bound placed
  obtain ⟨-, single⟩ := consistent front guard.2.2 back builder bound split reached emitted
  rw [single guard handles rfl] at stands
  exact stands

end CodeBuilder

end JavaMachine
