import JavaMachine.Assembler.Code
import JavaMachine.Proofs.Assembler.Pool
import JavaMachine.Proofs.Except

/-! # Bodies under construction

An item of a body is emitted in a few basic steps: constants are added to the pool, slots are popped
and pushed, bytes are appended, room is left for offsets, and so on. A relation that each basic step
keeps to is kept to by every item (`CodeBuilder.Stepwise.within_item`), if it is by those that bind
labels and add handlers. So a body only adds to the pool of its class. What comes out can be written:
its code has a size that fits, and it has no attributes. -/

namespace JavaMachine

theorem Assembling.exists_of_bind {σ α β : Type} {step : StateT σ (Except AssemblyFault) α}
    {next : α → StateT σ (Except AssemblyFault) β} {before after : σ} {result : β}
    (ended : (step >>= next) before = .ok (result, after)) :
    ∃ value middle, step before = .ok (value, middle) ∧ next value middle = .ok (result, after) := by
  obtain ⟨⟨value, middle⟩, began, ended⟩ := Except.bind_eq_ok_iff.mp ended
  exact ⟨value, middle, began, ended⟩

namespace CodeBuilder

variable {builder : CodeBuilder} {R : CodeBuilder → CodeBuilder → Prop} {α β : Type}

/-! ## Basic steps -/

/-- A relation that the basic steps of assembling keep to which emit nothing and add no
floating-point constant. -/
structure Still (R : CodeBuilder → CodeBuilder → Prop) : Prop where
  refl (builder : CodeBuilder) : R builder builder
  trans {before middle after : CodeBuilder} (near : R before middle) (far : R middle after) :
    R before after
  names {builder : CodeBuilder} {pool : PoolBuilder} (grows : builder.pool ≤ pool)
    (plain : pool.floats = builder.pool.floats) : R builder { builder with pool }
  slots {builder : CodeBuilder} {pop : Nat} (push : Nat) (enough : pop ≤ builder.depth) :
    R builder { builder with
      depth := builder.depth - pop + push
      maxDepth := max builder.maxDepth (builder.depth - pop + push) }
  ends (builder : CodeBuilder) : R builder { builder with reachable := false }
  learn (builder : CodeBuilder) (label : Label) (depth : Nat) :
    R builder { builder with labels := builder.labels.modify label (·.learnDepth depth) }
  locals (builder : CodeBuilder) (needed : Nat) :
    R builder { builder with maxLocals := max builder.maxLocals (min needed 0xffff) }
  room (builder : CodeBuilder) (chosenMaxStack : Option UInt16) :
    R builder { builder with chosenMaxStack }

/-- A relation that the basic steps of assembling which emit nothing keep to. -/
structure Quiet (R : CodeBuilder → CodeBuilder → Prop) : Prop extends Still R where
  pool {builder : CodeBuilder} {pool : PoolBuilder} (grows : builder.pool ≤ pool) :
    R builder { builder with pool }
  names grows _ := pool grows

/-- A relation that the basic steps of assembling keep to which add no floating-point constant. -/
structure Steady (R : CodeBuilder → CodeBuilder → Prop) : Prop extends Still R where
  bytes (builder : CodeBuilder) (bytes : List UInt8) :
    R builder { builder with code := builder.code ++ bytes }
  offset (builder : CodeBuilder) (label : Label) (start : Nat) (wide : Bool) :
    R builder { builder with
      fixups := builder.fixups.push ⟨label, start, builder.code.size, wide⟩
      code := builder.code ++ List.replicate (if wide then 4 else 2) (0 : UInt8) }

/-- A relation that the basic steps of assembling keep to. -/
structure Stepwise (R : CodeBuilder → CodeBuilder → Prop) : Prop extends Quiet R, Steady R

/-- A relation that the basic steps of assembling keep to, and that looks at nothing else than the
pool, the depths of the stack and whether control arrives. -/
structure Closed (R : CodeBuilder → CodeBuilder → Prop) : Prop where
  trans {before middle after : CodeBuilder} (near : R before middle) (far : R middle after) :
    R before after
  pool {builder : CodeBuilder} {pool : PoolBuilder} (grows : builder.pool ≤ pool) :
    R builder { builder with pool }
  slots {builder : CodeBuilder} {pop : Nat} (push : Nat) (enough : pop ≤ builder.depth) :
    R builder { builder with
      depth := builder.depth - pop + push
      maxDepth := max builder.maxDepth (builder.depth - pop + push) }
  ends (builder : CodeBuilder) : R builder { builder with reachable := false }
  rest (builder : CodeBuilder) (code : Array UInt8) (labels : Array LabelState)
    (fixups : Array Fixup) (handlers : Array PendingHandler) (maxLocals : Nat)
    (chosenMaxStack chosenMaxLocals : Option UInt16) :
    R builder { builder with
      code, labels, fixups, handlers, maxLocals, chosenMaxStack, chosenMaxLocals }

/-- A label is bound where control does not arrive: it is taken to arrive there with a stack as deep
as is known of the label. -/
def arriveAt (builder : CodeBuilder) (label : Label) : CodeBuilder :=
  let state := builder.labels.getD label {}
  { builder with
    labels := builder.labels.modify label fun _ => { state with offset := some builder.code.size }
    depth := state.depth.getD 0
    reachable := true }

/-- However a step of assembling ends well, it keeps to a relation. -/
def Within (R : CodeBuilder → CodeBuilder → Prop) (step : Assembling α) : Prop :=
  ∀ before value after, step before = .ok (value, after) → R before after

theorem within_throw (fault : AssemblyFault) : Within R (throw fault : Assembling α) := by
  intro before result after ended
  cases ended

theorem within_throw_bind (fault : AssemblyFault) (next : α → Assembling β) :
    Within R (throw fault >>= next) := by
  intro before result after ended
  cases ended

theorem within_modify {change : CodeBuilder → CodeBuilder}
    (kept : ∀ builder, R builder (change builder)) :
    Within R (modify change : Assembling PUnit) := by
  intro before result after ended
  cases ended
  exact kept before

/-- Binding a label where control arrives notes it down only; elsewhere the stack becomes as deep as
is known of the label. -/
theorem bindLabel_cases {label : Label} {after : CodeBuilder}
    (ended : bindLabel label builder = .ok ((), after)) :
    (builder.reachable = true ∧ ∃ labels, after = { builder with labels }) ∨
      builder.reachable = false ∧ after = builder.arriveAt label := by
  unfold bindLabel at ended
  obtain ⟨_, _, got, ended⟩ := Assembling.exists_of_bind ended
  cases got
  dsimp only at ended
  split at ended
  · cases ended
  · split at ended
    · next reachable =>
      cases ended
      exact .inl ⟨reachable, _, rfl⟩
    · next unreachable =>
      cases ended
      exact .inr ⟨Bool.eq_false_iff.mpr unreachable, rfl⟩

/-- A handler is noted down with the index of what it catches, a class that is new in the pool at
most. -/
theorem addHandler_eq_ok {start stop target : Label} {type : Option String} {result : Unit}
    {after : CodeBuilder} (ended : addHandler start stop target type builder = .ok (result, after)) :
    ∃ pool catchType, builder.pool ≤ pool ∧ pool.floats = builder.pool.floats ∧ after = { builder with
      pool
      labels := builder.labels.modify target (·.learnDepth 1)
      handlers := builder.handlers.push ⟨start, stop, target, catchType⟩ } := by
  cases type with
  | none =>
    cases ended
    exact ⟨builder.pool, 0, le_rfl, rfl, rfl⟩
  | some name =>
    cases ended
    have plain := PoolBuilder.plain_classRef name
    exact ⟨_, _, plain.growing builder.pool, plain.floats builder.pool, rfl⟩

namespace Still

variable (still : Still R)
include still

theorem within_pure (value : α) : Within R (pure value : Assembling α) := by
  intro before result after ended
  cases ended
  exact still.refl before

theorem within_get : Within R (get : Assembling CodeBuilder) := by
  intro before result after ended
  cases ended
  exact still.refl before

theorem seq {step : Assembling α} {next : α → Assembling β} (first : Within R step)
    (rest : ∀ value, Within R (next value)) : Within R (step >>= next) := by
  intro before result after ended
  obtain ⟨value, middle, began, ended⟩ := Assembling.exists_of_bind ended
  exact still.trans (first before value middle began) (rest value middle result after ended)

theorem within_forM {items : List α} {visit : α → Assembling PUnit}
    (each : ∀ item, Within R (visit item)) : Within R (items.forM visit) := by
  rw [List.forM_eq_forM]
  induction items with
  | nil => exact still.within_pure _
  | cons first rest ih =>
    rw [List.forM_cons]
    exact still.seq (each first) fun _ => ih

theorem within_names {action : PoolBuilding α} (plain : PoolBuilder.Plain action) :
    Within R (inPool action) := by
  intro before result after ended
  cases ended
  exact still.names (plain.growing before.pool) (plain.floats before.pool)

theorem within_adjust (pop push : Nat) : Within R (adjust pop push) := by
  intro before value after ended
  unfold adjust at ended
  change (if before.reachable = true then _ else _ : Assembling Unit) before = _ at ended
  split at ended
  · change (if before.depth < pop then _ else _ : Assembling Unit) before = _ at ended
    split at ended
    · cases ended
    · next enough =>
      cases ended
      exact still.slots push (Nat.le_of_not_lt enough)
  · cases ended
    exact still.refl before

theorem within_touchLocal (index : UInt16) (slots : Nat) : Within R (touchLocal index slots) :=
  within_modify fun builder => still.locals builder _

theorem within_endBlock : Within R endBlock :=
  within_modify still.ends

theorem within_learnDepth (label : Label) (depth : Nat) :
    Within R (updateLabel label (·.learnDepth depth)) :=
  within_modify fun builder => still.learn builder label depth

theorem within_learnTarget (label : Label) (depth : Nat) :
    Within R (learnTarget label depth) := by
  refine still.seq still.within_get fun builder => ?_
  split
  · exact still.within_learnDepth _ _
  · exact still.within_pure _

end Still

theorem Quiet.within_inPool (quiet : Quiet R) {action : PoolBuilding α}
    (growing : PoolBuilder.Growing action) : Within R (inPool action) := by
  intro before result after ended
  cases ended
  exact quiet.pool (growing before.pool)

namespace Steady

variable (steady : Steady R)
include steady

theorem within_emit (bytes : List UInt8) : Within R (emit bytes) :=
  within_modify fun builder => steady.bytes builder bytes

theorem within_emitOp (op : Opcode) (operands : List UInt8) : Within R (emitOp op operands) :=
  steady.within_emit _

/-! ## Parts of items -/

theorem within_emitOffset (label : Label) (start : Nat) (wide : Bool) :
    Within R (emitOffset label start wide) := by
  intro before result after ended
  cases ended
  exact steady.offset before label start wide

theorem within_emitSwitchOffset (label : Label) (start : Nat) :
    Within R (emitSwitchOffset label start) :=
  steady.seq steady.within_get fun _ =>
    steady.seq (steady.within_learnTarget _ _) fun _ => steady.within_emitOffset _ _ _

theorem within_emitLocal (long : Opcode) (short : Fin 4 → Opcode) (index : UInt16)
    (slots : Nat) : Within R (emitLocal long short index slots) := by
  refine steady.seq (steady.within_touchLocal _ _) fun _ => ?_
  split
  · exact steady.within_emitOp _ _
  · split
    · exact steady.within_emitOp _ _
    · exact steady.within_emitOp _ _

theorem within_emitConstant (index : UInt16) :
    Within R (emitConstant index) := by
  refine steady.seq (steady.within_adjust _ _) fun _ => ?_
  split
  · exact steady.within_emitOp _ _
  · exact steady.within_emitOp _ _

theorem within_emitWideConstant (index : UInt16) :
    Within R (emitWideConstant index) :=
  steady.seq (steady.within_adjust _ _) fun _ => steady.within_emitOp _ _

theorem within_pad : Within R pad :=
  steady.seq steady.within_get fun _ => steady.within_emit _

theorem within_emitPlain (byte : UInt8) : Within R (emitPlain byte) := by
  unfold emitPlain
  split
  · exact within_throw _
  · split
    · exact within_throw _
    · refine steady.seq (steady.within_adjust _ _) fun _ =>
      steady.seq (steady.within_emitOp _ _) fun _ => ?_
      split
      · exact steady.within_endBlock
      · exact steady.within_pure _

theorem within_emitInt (value : Int32) : Within R (emitInt value) := by
  unfold emitInt
  split
  · exact steady.seq (steady.within_adjust _ _) fun _ => steady.within_emit _
  · split
    · exact steady.seq (steady.within_adjust _ _) fun _ => steady.within_emitOp _ _
    · split
      · exact steady.seq (steady.within_adjust _ _) fun _ => steady.within_emitOp _ _
      · exact steady.seq (steady.within_names (PoolBuilder.plain_integer value)) fun _ =>
          steady.within_emitConstant _

theorem within_emitLong (value : Int64) : Within R (emitLong value) := by
  unfold emitLong
  split
  · exact steady.seq (steady.within_adjust _ _) fun _ => steady.within_emitOp _ _
  · exact steady.seq (steady.within_names (PoolBuilder.plain_long value)) fun _ =>
      steady.within_emitWideConstant _

theorem within_emitIncrement (index : UInt16) (delta : Int16) :
    Within R (emitIncrement index delta) := by
  refine steady.seq (steady.within_touchLocal _ _) fun _ => ?_
  split
  · exact steady.within_emitOp _ _
  · exact steady.within_emitOp _ _

theorem within_emitField (access : FieldAccess) (owner name descriptor : String) :
    Within R (emitField access owner name descriptor) := by
  unfold emitField
  split
  · exact within_throw _
  · exact steady.seq (steady.within_adjust _ _) fun _ =>
      steady.seq (steady.within_names (PoolBuilder.plain_fieldref _ _ _)) fun _ =>
        steady.within_emitOp _ _

theorem within_emitCall (kind : CallKind) (owner name descriptor : String) :
    Within R (emitCall kind owner name descriptor) := by
  unfold emitCall
  split
  · exact within_throw _
  · refine steady.seq (steady.within_adjust _ _) fun _ => ?_
    split
    · have plain := PoolBuilder.plain_interfaceMethodref owner name descriptor
      exact steady.seq (steady.within_names plain) fun _ => steady.within_emitOp _ _
    · have plain := PoolBuilder.plain_methodref owner name descriptor
      exact steady.seq (steady.within_names plain) fun _ => steady.within_emitOp _ _

theorem within_emitJump (byte : UInt8) (target : Label) :
    Within R (emitJump byte target) := by
  unfold emitJump
  split
  · exact within_throw _
  · refine steady.seq (steady.within_adjust _ _) fun _ => steady.seq steady.within_get fun _ =>
      steady.seq steady.within_get fun _ => steady.seq (steady.within_learnTarget _ _) fun _ =>
      steady.seq (steady.within_emitOp _ _) fun _ =>
        steady.seq (steady.within_emitOffset _ _ _) fun _ => ?_
    split
    · exact steady.within_endBlock
    · exact steady.within_pure _

theorem within_emitRet (index : UInt16) : Within R (emitRet index) := by
  refine steady.seq (steady.within_touchLocal _ _) fun _ => ?_
  split
  · exact steady.seq (steady.within_emitOp _ _) fun _ => steady.within_endBlock
  · exact steady.seq (steady.within_emitOp _ _) fun _ => steady.within_endBlock

theorem within_emitTableswitch (low : Int32) (default : Label) (targets : List Label) :
    Within R (emitTableswitch low default targets) :=
  steady.seq (steady.within_adjust _ _) fun _ => steady.seq steady.within_get fun _ =>
    steady.seq (steady.within_emitOp _ _) fun _ => steady.seq steady.within_pad fun _ =>
    steady.seq (steady.within_emitSwitchOffset _ _) fun _ =>
      steady.seq (steady.within_emit _) fun _ =>
    steady.seq (steady.within_emit _) fun _ =>
    steady.seq (steady.within_forM fun _ => steady.within_emitSwitchOffset _ _) fun _ =>
      steady.within_endBlock

theorem within_emitLookupswitch (default : Label) (pairs : List (Int32 × Label)) :
    Within R (emitLookupswitch default pairs) :=
  steady.seq (steady.within_adjust _ _) fun _ => steady.seq steady.within_get fun _ =>
    steady.seq (steady.within_emitOp _ _) fun _ => steady.seq steady.within_pad fun _ =>
    steady.seq (steady.within_emitSwitchOffset _ _) fun _ =>
      steady.seq (steady.within_emit _) fun _ =>
    steady.seq (steady.within_forM fun _ =>
      steady.seq (steady.within_emit _) fun _ => steady.within_emitSwitchOffset _ _) fun _ =>
    steady.within_endBlock

/-- What the basic steps keep to, every item keeps to, if the items do that push floating-point
constants, those that bind labels, those that add handlers and those that choose the number of
locals. -/
theorem within_item (item : CodeItem)
    (floats : ∀ bits, item = .fconst bits → Within R (emitFloat bits))
    (doubles : ∀ bits, item = .dconst bits → Within R (emitDouble bits))
    (binds : ∀ label, item = .bind label → Within R (bindLabel label))
    (handles : ∀ start stop target type, item = .handler start stop target type →
      Within R (addHandler start stop target type))
    (chooses : ∀ slots, item = .maxLocals slots → Within R (CodeBuilder.item item)) :
    Within R (CodeBuilder.item item) := by
  cases item with
  | plain byte => exact steady.within_emitPlain byte
  | load kind index => exact steady.seq (steady.within_emitLocal _ _ _ _) fun _ =>
    steady.within_adjust _ _
  | store kind index => exact steady.seq (steady.within_adjust _ _) fun _ =>
    steady.within_emitLocal _ _ _ _
  | iconst value => exact steady.within_emitInt value
  | lconst value => exact steady.within_emitLong value
  | fconst bits => exact floats bits rfl
  | dconst bits => exact doubles bits rfl
  | stringConst text =>
    exact steady.seq (steady.within_names (PoolBuilder.plain_string text)) fun _ =>
      steady.within_emitConstant _
  | classConst name =>
    exact steady.seq (steady.within_names (PoolBuilder.plain_classRef name)) fun _ =>
      steady.within_emitConstant _
  | iinc index delta => exact steady.within_emitIncrement index delta
  | field access owner name descriptor => exact steady.within_emitField access owner name descriptor
  | call kind owner name descriptor => exact steady.within_emitCall kind owner name descriptor
  | classUse use name =>
    exact steady.seq (steady.within_adjust _ _) fun _ =>
      steady.seq (steady.within_names (PoolBuilder.plain_classRef name)) fun _ =>
        steady.within_emitOp _ _
  | newarray type => exact steady.seq (steady.within_adjust _ _) fun _ => steady.within_emitOp _ _
  | multianewarray descriptor dimensions =>
    exact steady.seq (steady.within_adjust _ _) fun _ =>
      steady.seq (steady.within_names (PoolBuilder.plain_classRef descriptor)) fun _ =>
      steady.within_emitOp _ _
  | bind label => exact binds label rfl
  | jump byte target => exact steady.within_emitJump byte target
  | ret index => exact steady.within_emitRet index
  | tableswitch low default targets => exact steady.within_emitTableswitch low default targets
  | lookupswitch default pairs => exact steady.within_emitLookupswitch default pairs
  | handler start stop target type => exact handles start stop target type rfl
  | raw bytes => exact steady.within_emit bytes
  | maxStack slots => exact within_modify fun builder => steady.room builder _
  | maxLocals slots => exact chooses slots rfl

end Steady

namespace Stepwise

variable (stepwise : Stepwise R)
include stepwise

theorem within_emitFloat (bits : UInt32) : Within R (emitFloat bits) := by
  unfold emitFloat
  split
  · exact stepwise.seq (stepwise.within_adjust _ _) fun _ => stepwise.within_emitOp _ _
  · exact stepwise.seq (stepwise.within_inPool (PoolBuilder.growing_float bits)) fun _ =>
      stepwise.within_emitConstant _

theorem within_emitDouble (bits : UInt64) : Within R (emitDouble bits) := by
  unfold emitDouble
  split
  · exact stepwise.seq (stepwise.within_adjust _ _) fun _ => stepwise.within_emitOp _ _
  · exact stepwise.seq (stepwise.within_inPool (PoolBuilder.growing_double bits)) fun _ =>
      stepwise.within_emitWideConstant _

/-- **What the basic steps keep to, every item keeps to**, if the items do that bind labels, those
that add handlers and those that choose the number of locals. -/
theorem within_item (item : CodeItem)
    (binds : ∀ label, item = .bind label → Within R (bindLabel label))
    (handles : ∀ start stop target type, item = .handler start stop target type →
      Within R (addHandler start stop target type))
    (chooses : ∀ slots, item = .maxLocals slots → Within R (CodeBuilder.item item)) :
    Within R (CodeBuilder.item item) :=
  stepwise.toSteady.within_item item (fun bits _ => stepwise.within_emitFloat bits)
    (fun bits _ => stepwise.within_emitDouble bits) binds handles chooses

end Stepwise

namespace Closed

variable (closed : Closed R)
include closed

theorem stepwise : Stepwise R where
  refl builder := closed.rest builder _ _ _ _ _ _ _
  trans := closed.trans
  pool := closed.pool
  slots := closed.slots
  ends := closed.ends
  learn builder _ _ := closed.rest builder _ _ _ _ _ _ _
  locals builder _ := closed.rest builder _ _ _ _ _ _ _
  room builder _ := closed.rest builder _ _ _ _ _ _ _
  bytes builder _ := closed.rest builder _ _ _ _ _ _ _
  offset builder _ _ _ := closed.rest builder _ _ _ _ _ _ _

theorem within_bindLabel {label : Label}
    (arrives : ∀ builder, builder.reachable = false → R builder (builder.arriveAt label)) :
    Within R (bindLabel label) := by
  intro before result after ended
  rcases bindLabel_cases ended with ⟨-, labels, rfl⟩ | ⟨unreachable, rfl⟩
  · exact closed.rest before _ _ _ _ _ _ _
  · exact arrives before unreachable

theorem within_addHandler (start stop target : Label) (type : Option String) :
    Within R (addHandler start stop target type) := by
  intro before result after ended
  obtain ⟨pool, catchType, grows, -, rfl⟩ := addHandler_eq_ok ended
  exact closed.trans (closed.pool grows) (closed.rest _ _ _ _ _ _ _ _)

/-- What the basic steps keep to, every item keeps to, if the labels do that are bound where control
does not arrive. -/
theorem within_item (item : CodeItem)
    (arrives : ∀ label, item = .bind label → ∀ builder : CodeBuilder, builder.reachable = false →
      R builder (builder.arriveAt label)) :
    Within R (CodeBuilder.item item) :=
  closed.stepwise.within_item item (fun label same => closed.within_bindLabel (arrives label same))
    (fun start stop target type _ => closed.within_addHandler start stop target type)
    fun _ same => same ▸ within_modify fun builder => closed.rest builder _ _ _ _ _ _ _

end Closed

theorem closed_le : Closed fun before after : CodeBuilder => before.pool ≤ after.pool where
  trans near far := near.trans far
  pool grows := grows
  slots _ _ := le_rfl
  ends _ := le_rfl
  rest _ _ _ _ _ _ _ _ := le_rfl

/-- Items only add to the pool. -/
theorem le_of_items {items : List CodeItem} {before after : CodeBuilder}
    (ended : items.forM item before = .ok ((), after)) : before.pool ≤ after.pool :=
  closed_le.stepwise.within_forM (fun item => closed_le.within_item item fun _ _ _ _ => le_rfl)
    _ _ _ ended

/-! ## The finished body -/

theorem size_patch (code : Array UInt8) (position : Nat) (bytes : List UInt8) :
    (patch code position bytes).size = code.size := by
  induction bytes generalizing code position with
  | nil => rfl
  | cons byte rest ih => rw [patch, ih, Array.size_setIfInBounds]

theorem size_applyFixup {labels : Array LabelState} {code patched : Array UInt8} {fixup : Fixup}
    (ended : applyFixup labels code fixup = .ok patched) : patched.size = code.size := by
  obtain ⟨target, -, ended⟩ := Except.bind_eq_ok_iff.mp ended
  dsimp only at ended
  split at ended
  · cases ended
    exact size_patch _ _ _
  · split at ended
    · cases ended
      exact size_patch _ _ _
    · cases ended

theorem size_applyFixups {labels : Array LabelState} {code patched : Array UInt8}
    {fixups : List Fixup} (ended : fixups.foldlM (applyFixup labels) code = .ok patched) :
    patched.size = code.size := by
  induction fixups generalizing code with
  | nil =>
    cases ended
    rfl
  | cons fixup rest ih =>
    rw [List.foldlM_cons] at ended
    obtain ⟨middle, applied, ended⟩ := Except.bind_eq_ok_iff.mp ended
    exact (ih ended).trans (size_applyFixup applied)

/-- A body that was assembled has at most 65535 bytes of code and no attributes. -/
structure Finished (body : CodeBody Attribute) : Prop where
  size : body.code.length ≤ 0xffff
  attributes : body.attributes = []

theorem finished_of_finish {body : CodeBody Attribute} (ended : builder.finish = .ok body) :
    Finished body := by
  unfold finish at ended
  split at ended
  · cases ended
  · next fits =>
    obtain ⟨code, patched, ended⟩ := Except.bind_eq_ok_iff.mp ended
    obtain ⟨handlers, -, ended⟩ := Except.bind_eq_ok_iff.mp ended
    cases ended
    rw [← Array.foldlM_toList] at patched
    refine ⟨?_, rfl⟩
    rw [Array.length_toList, size_applyFixups patched]
    exact Nat.le_of_not_lt fits

/-- **A body that is assembled adds to the pool and can be written**, if it does not have too many
handlers. -/
theorem finished_of_assemble {pool grown : PoolBuilder} {isStatic : Bool} {descriptor : String}
    {labels : Nat} {items : List CodeItem} {body : CodeBody Attribute}
    (ended : assemble pool isStatic descriptor labels items = .ok (body, grown)) :
    pool ≤ grown ∧ Finished body := by
  unfold assemble at ended
  split at ended
  · cases ended
  · obtain ⟨⟨_, builder⟩, emitted, ended⟩ := Except.bind_eq_ok_iff.mp ended
    obtain ⟨finished, ended', ended⟩ := Except.bind_eq_ok_iff.mp ended
    cases ended
    exact ⟨le_of_items emitted, finished_of_finish ended'⟩

theorem length_writeHandlers (handlers : List HandlerEntry) :
    (handlers.flatMap HandlerEntry.write).length = 8 * handlers.length := by
  induction handlers with
  | nil => rfl
  | cons first rest ih =>
    have row : first.write.length = 8 := rfl
    rw [List.flatMap_cons, List.length_append, List.length_cons, ih, row]
    omega

theorem Finished.wellFormed {body : CodeBody Attribute} {pool : Array PoolEntry}
    (finished : Finished body) (handlers : body.handlers.length < 2 ^ 16) :
    body.WellFormed pool where
  handlerCount := handlers
  attributeCount := by
    rw [finished.attributes]
    decide
  plain := by
    rw [finished.attributes]
    exact nofun
  size := by
    have code := finished.size
    simp only [CodeBody.write, Writer.sized, Writer.counted, List.length_append, length_writeHandlers,
      finished.attributes, Writer.u16, Writer.u32, List.length_cons, List.length_nil,
      List.flatMap_nil]
    omega

end JavaMachine.CodeBuilder
