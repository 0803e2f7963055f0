import JavaMachine.Assembler.Pool
import JavaMachine.ClassFile.Writer
import JavaMachine.Error

/-! # Assembling method bodies

A body is a list of items. Assembling emits one item after the other, follows the depth of the
operand stack along the way, and patches branches once all labels are bound. Along code that
cannot be reached nothing is known of the stack, until a label is bound there. -/

namespace JavaMachine

/-- A label of a body, by number. -/
abbrev Label := Nat

/-- The four instructions that access a field. -/
inductive FieldAccess where
  | getStatic
  | putStatic
  | getField
  | putField
  deriving DecidableEq, Inhabited

namespace FieldAccess

def opcode : FieldAccess → Opcode
  | getStatic => .getstatic
  | putStatic => .putstatic
  | getField => .getfield
  | putField => .putfield

/-- The slots popped and pushed for a field that takes `slots`. -/
def stackEffect (slots : Nat) : FieldAccess → Nat × Nat
  | getStatic => (0, slots)
  | putStatic => (slots, 0)
  | getField => (1, slots)
  | putField => (1 + slots, 0)

end FieldAccess

/-- The four instructions that call a method named by the constant pool. -/
inductive CallKind where
  | virtual
  | special
  | static
  | interface
  deriving DecidableEq, Inhabited

namespace CallKind

def opcode : CallKind → Opcode
  | virtual => .invokevirtual
  | special => .invokespecial
  | static => .invokestatic
  | interface => .invokeinterface

end CallKind

/-- The instructions that name a class and push one slot. -/
inductive ClassUse where
  | new
  | newArray
  | checkCast
  | instanceOf
  deriving DecidableEq, Inhabited

namespace ClassUse

def opcode : ClassUse → Opcode
  | new => .new
  | newArray => .anewarray
  | checkCast => .checkcast
  | instanceOf => .instanceof

/-- The slots popped. -/
def pops : ClassUse → Nat
  | new => 0
  | _ => 1

end ClassUse

/-- An item of a method body. -/
inductive CodeItem where
  /-- An instruction without operands, by byte code. -/
  | plain (byte : UInt8)
  | load (kind : ValueKind) (index : UInt16)
  | store (kind : ValueKind) (index : UInt16)
  | iconst (value : Int32)
  | lconst (value : Int64)
  | fconst (bits : UInt32)
  | dconst (bits : UInt64)
  | stringConst (text : String)
  | classConst (name : String)
  | iinc (index : UInt16) (delta : Int16)
  | field (access : FieldAccess) (owner name descriptor : String)
  | call (kind : CallKind) (owner name descriptor : String)
  | classUse (use : ClassUse) (name : String)
  | newarray (type : UInt8)
  | multianewarray (descriptor : String) (dimensions : UInt8)
  | bind (label : Label)
  /-- A branch with a two-byte offset, by byte code. -/
  | jump (byte : UInt8) (target : Label)
  | ret (index : UInt16)
  | tableswitch (low : Int32) (default : Label) (targets : List Label)
  | lookupswitch (default : Label) (pairs : List (Int32 × Label))
  /-- A handler of everything thrown from `start` up to `stop`, or of one type. -/
  | handler (start stop target : Label) (type : Option String)
  | raw (bytes : List UInt8)
  | maxStack (slots : UInt16)
  | maxLocals (slots : UInt16)
  deriving DecidableEq, Inhabited

/-- What is known of a label: where it is bound, and the stack depth there. -/
structure LabelState where
  offset : Option Nat := none
  depth : Option Nat := none
  deriving DecidableEq, Inhabited

namespace LabelState

/-- The first depth that is learned of a label is kept. -/
def learnDepth (state : LabelState) (depth : Nat) : LabelState :=
  { state with depth := state.depth <|> some depth }

end LabelState

/-- A branch offset still to be written. -/
structure Fixup where
  label : Label
  /-- The offset of the instruction, from which branches count. -/
  start : Nat
  position : Nat
  wide : Bool
  deriving DecidableEq, Inhabited

/-- A handler in terms of labels. -/
structure PendingHandler where
  start : Label
  stop : Label
  target : Label
  catchType : UInt16
  deriving DecidableEq, Inhabited

/-- A method body under construction. -/
structure CodeBuilder where
  pool : PoolBuilder
  code : Array UInt8 := #[]
  labels : Array LabelState
  fixups : Array Fixup := #[]
  handlers : Array PendingHandler := #[]
  depth : Nat := 0
  maxDepth : Nat := 0
  reachable : Bool := true
  maxLocals : Nat
  chosenMaxStack : Option UInt16 := none
  chosenMaxLocals : Option UInt16 := none
  deriving Inhabited

/-- A step of assembling a body; the first fault ends it. -/
abbrev Assembling := StateT CodeBuilder (Except AssemblyFault)

namespace CodeBuilder

/-- Runs an action on the pool. -/
def inPool {α : Type} (action : PoolBuilding α) : Assembling α :=
  modifyGet fun builder =>
    let (result, pool) := action builder.pool
    (result, { builder with pool })

/-- Pops and pushes slots. -/
def adjust (pop push : Nat) : Assembling Unit := do
  let builder ← get
  if builder.reachable then
    if builder.depth < pop then
      throw (.stackUnderflow builder.code.size)
    let depth := builder.depth - pop + push
    set { builder with depth, maxDepth := max builder.maxDepth depth }

/-- Appends bytes. -/
def emit (bytes : List UInt8) : Assembling Unit :=
  modify fun builder => { builder with code := builder.code ++ bytes }

/-- Appends an opcode and its operands. -/
def emitOp (op : Opcode) (operands : List UInt8) : Assembling Unit :=
  emit (op.byte :: operands)

/-- A local variable is used; the body needs room for it. -/
def touchLocal (index : UInt16) (slots : Nat) : Assembling Unit :=
  modify fun builder =>
    { builder with maxLocals := max builder.maxLocals (min (index.toNat + slots) 0xffff) }

/-- Nothing passes control to what follows. -/
def endBlock : Assembling Unit :=
  modify fun builder => { builder with reachable := false }

/-- Changes what is known of a label. -/
def updateLabel (label : Label) (change : LabelState → LabelState) : Assembling Unit :=
  modify fun builder => { builder with labels := builder.labels.modify label change }

/-- A branch to a label leaves so many slots on the stack. -/
def learnTarget (label : Label) (depth : Nat) : Assembling Unit := do
  if (← get).reachable then
    updateLabel label (·.learnDepth depth)

/-- Leaves room for a branch offset. -/
def emitOffset (label : Label) (start : Nat) (wide : Bool) : Assembling Unit := do
  modify fun builder =>
    { builder with
      fixups := builder.fixups.push ⟨label, start, builder.code.size, wide⟩ }
  emit (List.replicate (if wide then 4 else 2) 0)

/-- A branch offset of a switch, for which the stack is as it is now. -/
def emitSwitchOffset (label : Label) (start : Nat) : Assembling Unit := do
  learnTarget label (← get).depth
  emitOffset label start true

/-- An instruction on a local variable, in the shortest of its three forms. -/
def emitLocal (long : Opcode) (short : Fin 4 → Opcode) (index : UInt16) (slots : Nat) :
    Assembling Unit := do
  touchLocal index slots
  if h : index.toNat < 4 then emitOp (short ⟨index.toNat, h⟩) []
  else if index ≤ 0xff then emitOp long [index.toUInt8]
  else emitOp .wide (long.byte :: Writer.u16 index)

/-- Loads a constant of one slot by its index. -/
def emitConstant (index : UInt16) : Assembling Unit := do
  adjust 0 1
  if index ≤ 0xff then emitOp .ldc [index.toUInt8] else emitOp .ldcWide (Writer.u16 index)

/-- Loads a constant of two slots by its index. -/
def emitWideConstant (index : UInt16) : Assembling Unit := do
  adjust 0 2
  emitOp .ldc2Wide (Writer.u16 index)

/-- Fills up to a multiple of four bytes. -/
def pad : Assembling Unit := do
  let size := (← get).code.size
  emit (List.replicate ((4 - size % 4) % 4) 0)

/-- The slots that a branch pops; `none` for an instruction that is no branch of two bytes. -/
def branchPops : Opcode → Option Nat
  | .ifInt _ | .ifNull _ => some 1
  | .ifInts _ | .ifReferences _ => some 2
  | .goto | .jsr => some 0
  | _ => none

def emitPlain (byte : UInt8) : Assembling Unit := do
  match Opcode.ofByte? byte with
  | none => throw (.needsOperands (Opcode.mnemonicOfByte byte))
  | some op =>
    match op.stackEffect with
    | none => throw (.needsOperands op.mnemonic)
    | some (pop, push) =>
      adjust pop push
      emitOp op []
      if op.endsBlock then
        endBlock

/-- Pushes an int in the shortest form that has it. -/
def emitInt (value : Int32) : Assembling Unit := do
  if -1 ≤ value ∧ value ≤ 5 then
    adjust 0 1
    emit [Opcode.iconstZero.byte + value.toInt8.toUInt8]
  else if value.toInt8.toInt32 = value then
    adjust 0 1
    emitOp .bipush [value.toInt8.toUInt8]
  else if value.toInt16.toInt32 = value then
    adjust 0 1
    emitOp .sipush (Writer.u16 value.toInt16.toUInt16)
  else
    emitConstant (← inPool (PoolBuilder.integer value))

def emitLong (value : Int64) : Assembling Unit := do
  match Opcode.ofLong? value with
  | some op =>
    adjust 0 2
    emitOp op []
  | none => emitWideConstant (← inPool (PoolBuilder.long value))

def emitFloat (bits : UInt32) : Assembling Unit := do
  match Opcode.ofFloat? bits with
  | some op =>
    adjust 0 1
    emitOp op []
  | none => emitConstant (← inPool (PoolBuilder.float bits))

def emitDouble (bits : UInt64) : Assembling Unit := do
  match Opcode.ofDouble? bits with
  | some op =>
    adjust 0 2
    emitOp op []
  | none => emitWideConstant (← inPool (PoolBuilder.double bits))

def emitIncrement (index : UInt16) (delta : Int16) : Assembling Unit := do
  touchLocal index 1
  if delta.toInt8.toInt16 = delta ∧ index ≤ 0xff then
    emitOp .iinc [index.toUInt8, delta.toInt8.toUInt8]
  else
    emitOp .wide (Opcode.iinc.byte :: (Writer.u16 index ++ Writer.u16 delta.toUInt16))

def emitField (access : FieldAccess) (owner name descriptor : String) : Assembling Unit := do
  match FieldType.ofDescriptor? descriptor with
  | none => throw (.fieldDescriptor descriptor)
  | some type =>
    let (pop, push) := access.stackEffect type.slots
    adjust pop push
    let index ← inPool (PoolBuilder.fieldref owner name descriptor)
    emitOp access.opcode (Writer.u16 index)

def emitCall (kind : CallKind) (owner name descriptor : String) : Assembling Unit := do
  match MethodDescriptor.ofDescriptor? descriptor with
  | none => throw (.methodDescriptor descriptor)
  | some method =>
    let arguments := method.parameterSlots + (if kind = .static then 0 else 1)
    adjust arguments ((method.returnType.map FieldType.slots).getD 0)
    if kind = .interface then
      let index ← inPool (PoolBuilder.interfaceMethodref owner name descriptor)
      emitOp kind.opcode (Writer.u16 index ++ [UInt8.ofNat arguments, 0])
    else
      let index ← inPool (PoolBuilder.methodref owner name descriptor)
      emitOp kind.opcode (Writer.u16 index)

def bindLabel (label : Label) : Assembling Unit := do
  let builder ← get
  let state := builder.labels.getD label {}
  if state.offset.isSome then
    throw (.labelBoundTwice label)
  let bound := { state with offset := some builder.code.size }
  if builder.reachable then
    updateLabel label fun _ => bound.learnDepth builder.depth
  else
    updateLabel label fun _ => bound
    modify fun builder => { builder with depth := state.depth.getD 0, reachable := true }

def emitJump (byte : UInt8) (target : Label) : Assembling Unit := do
  match (Opcode.ofByte? byte).bind fun op => (branchPops op).map fun pops => (op, pops) with
  | none => throw (.notBranch (Opcode.mnemonicOfByte byte))
  | some (op, pops) =>
    adjust pops 0
    let start := (← get).code.size
    let depth := (← get).depth
    learnTarget target (if op = .jsr then depth + 1 else depth)
    emitOp op []
    emitOffset target start false
    if op = .goto then
      endBlock

def emitRet (index : UInt16) : Assembling Unit := do
  touchLocal index 1
  if index ≤ 0xff then emitOp .ret [index.toUInt8]
  else emitOp .wide (Opcode.ret.byte :: Writer.u16 index)
  endBlock

def emitTableswitch (low : Int32) (default : Label) (targets : List Label) : Assembling Unit := do
  adjust 1 0
  let start := (← get).code.size
  emitOp .tableswitch []
  pad
  emitSwitchOffset default start
  let high := low + (Int32.ofNat targets.length - 1)
  emit (Writer.u32 low.toUInt32)
  emit (Writer.u32 high.toUInt32)
  targets.forM fun target => emitSwitchOffset target start
  endBlock

/-- The pairs of a lookupswitch are written in the order of their keys; of equal keys the one given
first stays first. -/
def sortPairs (pairs : List (Int32 × Label)) : List (Int32 × Label) :=
  pairs.mergeSort fun left right => left.1 ≤ right.1

def emitLookupswitch (default : Label) (pairs : List (Int32 × Label)) : Assembling Unit := do
  adjust 1 0
  let start := (← get).code.size
  emitOp .lookupswitch []
  pad
  emitSwitchOffset default start
  emit (Writer.u32 (UInt32.ofNat pairs.length))
  (sortPairs pairs).forM fun (key, target) => do
    emit (Writer.u32 key.toUInt32)
    emitSwitchOffset target start
  endBlock

def addHandler (start stop target : Label) (type : Option String) : Assembling Unit := do
  let catchType ← match type with
    | none => pure 0
    | some name => inPool (PoolBuilder.classRef name)
  updateLabel target (·.learnDepth 1)
  modify fun builder =>
    { builder with handlers := builder.handlers.push ⟨start, stop, target, catchType⟩ }

/-- Emits one item. -/
def item : CodeItem → Assembling Unit
  | .plain byte => emitPlain byte
  | .load kind index => do
    emitLocal (.load kind) (.loadShort kind) index kind.slots
    adjust 0 kind.slots
  | .store kind index => do
    adjust kind.slots 0
    emitLocal (.store kind) (.storeShort kind) index kind.slots
  | .iconst value => emitInt value
  | .lconst value => emitLong value
  | .fconst bits => emitFloat bits
  | .dconst bits => emitDouble bits
  | .stringConst text => do emitConstant (← inPool (PoolBuilder.string text))
  | .classConst name => do emitConstant (← inPool (PoolBuilder.classRef name))
  | .iinc index delta => emitIncrement index delta
  | .field access owner name descriptor => emitField access owner name descriptor
  | .call kind owner name descriptor => emitCall kind owner name descriptor
  | .classUse use name => do
    adjust use.pops 1
    emitOp use.opcode (Writer.u16 (← inPool (PoolBuilder.classRef name)))
  | .newarray type => do
    adjust 1 1
    emitOp .newarray [type]
  | .multianewarray descriptor dimensions => do
    adjust dimensions.toNat 1
    let index ← inPool (PoolBuilder.classRef descriptor)
    emitOp .multianewarray (Writer.u16 index ++ [dimensions])
  | .bind label => bindLabel label
  | .jump byte target => emitJump byte target
  | .ret index => emitRet index
  | .tableswitch low default targets => emitTableswitch low default targets
  | .lookupswitch default pairs => emitLookupswitch default pairs
  | .handler start stop target type => addHandler start stop target type
  | .raw bytes => emit bytes
  | .maxStack slots => modify fun builder => { builder with chosenMaxStack := some slots }
  | .maxLocals slots => modify fun builder => { builder with chosenMaxLocals := some slots }

/-- Where a label is bound. -/
def labelOffset (labels : Array LabelState) (label : Label) : Except AssemblyFault Nat :=
  match (labels.getD label {}).offset with
  | some offset => .ok offset
  | none => .error (.labelUnbound label)

/-- Overwrites bytes from a position on. -/
def patch (code : Array UInt8) (position : Nat) : List UInt8 → Array UInt8
  | [] => code
  | byte :: rest => patch (code.setIfInBounds position byte) (position + 1) rest

/-- Writes the offset of one branch. -/
def applyFixup (labels : Array LabelState) (code : Array UInt8) (fixup : Fixup) :
    Except AssemblyFault (Array UInt8) := do
  let target ← labelOffset labels fixup.label
  let offset : Int := target - fixup.start
  if fixup.wide then
    return patch code fixup.position (Writer.u32 (Int32.ofInt offset).toUInt32)
  else if -0x8000 ≤ offset ∧ offset ≤ 0x7fff then
    return patch code fixup.position (Writer.u16 (Int16.ofInt offset).toUInt16)
  else throw (.branchOffset offset)

/-- A handler in terms of offsets. -/
def resolveHandler (labels : Array LabelState) (handler : PendingHandler) :
    Except AssemblyFault HandlerEntry := do
  let start ← labelOffset labels handler.start
  let stop ← labelOffset labels handler.stop
  let target ← labelOffset labels handler.target
  return ⟨UInt16.ofNat start, UInt16.ofNat stop, UInt16.ofNat target, handler.catchType⟩

/-- The finished body. -/
def finish (builder : CodeBuilder) : Except AssemblyFault (CodeBody Attribute) := do
  if builder.code.size > 0xffff then
    throw .bodyTooLarge
  let code ← builder.fixups.foldlM (applyFixup builder.labels) builder.code
  let handlers ← builder.handlers.toList.mapM (resolveHandler builder.labels)
  return {
    maxStack := builder.chosenMaxStack.getD (UInt16.ofNat builder.maxDepth)
    maxLocals := builder.chosenMaxLocals.getD (UInt16.ofNat builder.maxLocals)
    code := code.toList
    handlers
    attributes := [] }

/-- The body that a list of items makes, and the pool with the constants it uses. -/
def assemble (pool : PoolBuilder) (isStatic : Bool) (descriptor : String) (labels : Nat)
    (items : List CodeItem) : Except AssemblyFault (CodeBody Attribute × PoolBuilder) := do
  match MethodDescriptor.ofDescriptor? descriptor with
  | none => throw (.methodDescriptor descriptor)
  | some method =>
    let locals := method.parameterSlots + (if isStatic then 0 else 1)
    let start : CodeBuilder :=
      { pool, labels := Array.replicate labels {}, maxLocals := locals % 0x10000 }
    let ((), builder) ← (items.forM item).run start
    let body ← builder.finish
    return (body, builder.pool)

end CodeBuilder

end JavaMachine
