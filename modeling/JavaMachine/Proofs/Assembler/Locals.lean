import JavaMachine.Proofs.Assembler.Transfer
import JavaMachine.Proofs.Instruction.StackEffect

/-! # Local variables in an assembled body

An instruction on a local variable has up to three forms, and the assembler picks the shortest one
that has its index, and its amount if it has one. The machine decodes each form as the same operation
on the local, and goes on where the code of the instruction ends (`Step.Decodes`). So the form makes
no difference to what the instruction does (`Frame.Accesses`), and the body has room for the locals
it uses unless it is told otherwise (`CodeBuilder.accessesLocals_of_assemble`). -/

namespace JavaMachine

open CodeBuilder (Holds holds_append holds_cons)
open Operation (bind_of_ok exists_of_bind_ok)

/-! ## What an access does -/

namespace Frame

variable {frame after : Frame} {rest : List Value} {value : Value}

/-- A value is on top of the stack, above the other slots. What works on single slots may have taken
away the filler of a wide one. -/
def Topped (frame : Frame) (rest : List Value) (value : Value) : Prop :=
  value ≠ .top ∧ (frame.stack.toList = rest ++ [value] ∨
    value.isWide = true ∧ frame.stack.toList = rest ++ [value, .top])

/-- A local variable has been given a value; a wide one takes the following local too, which holds a
filler then. -/
def Assigned (index : Nat) (value : Value) (before after : Array Value) : Prop :=
  ∀ i, after[i]? = if i = index then some value
    else if value.isWide = true ∧ i = index + 1 then some .top
    else before[i]?

/-- What an access to a local variable makes of a frame, and where control goes on if the code behind
it begins at a place. -/
inductive Accesses (frame : Frame) (next : Nat) : CodeItem → Frame → Nat → Prop
  | load {kind : ValueKind} {index : UInt16} {value : Value}
      (held : frame.locals[index.toNat]? = some value) (same : value.kind = .value kind)
      (room : frame.stack.size + kind.slots ≤ frame.code.maxStack) :
      Accesses frame next (.load kind index)
        (frame.withStack (frame.stack.toList ++ Value.toSlots [value])) next
  | store {kind : ValueKind} {index : UInt16} {value : Value} {rest : List Value}
      {locals : Array Value} (topped : frame.Topped rest value)
      (takes : Step.storable kind value = true)
      (inside : index.toNat + kind.slots ≤ frame.locals.size)
      (assigned : Assigned index.toNat value frame.locals locals) :
      Accesses frame next (.store kind index) { frame.withStack rest with locals } next
  | iinc {index : UInt16} {delta : Int16} {number : Int32} {locals : Array Value}
      (held : frame.locals[index.toNat]? = some (.int number))
      (assigned : Assigned index.toNat (.int (.ofInt (number.toInt + delta.toInt))) frame.locals
        locals) :
      Accesses frame next (.iinc index delta) { frame with locals } next
  | ret {index : UInt16} {address : Nat}
      (held : frame.locals[index.toNat]? = some (.returnAddress address)) :
      Accesses frame next (.ret index) frame address

theorem pushSlot_eq_ok_iff : pushSlot value frame = .ok () after ↔
    frame.stack.size < frame.code.maxStack ∧
      after = frame.withStack (frame.stack.toList ++ [value]) := by
  rw [pushSlot_eq, push_eq_withStack]
  split
  · next full => exact ⟨nofun, fun room => absurd room.1 (Nat.not_lt_of_le full)⟩
  · next room =>
    constructor
    · intro ended
      cases ended
      exact ⟨Nat.lt_of_not_le room, rfl⟩
    · rintro ⟨-, rfl⟩
      rfl

/-- A value is put on the stack exactly where there is room for it and for its filler. -/
theorem push_eq_ok_iff : push value frame = .ok () after ↔
    frame.stack.size + (Value.toSlots [value]).length ≤ frame.code.maxStack ∧
      after = frame.withStack (frame.stack.toList ++ Value.toSlots [value]) := by
  constructor
  · intro ended
    obtain ⟨⟨⟩, between, first, second⟩ := exists_of_bind_ok ended
    obtain ⟨room, rfl⟩ := pushSlot_eq_ok_iff.mp first
    rw [Value.toSlots, List.flatMap_singleton]
    split at second
    · next wide =>
      obtain ⟨more, rfl⟩ := pushSlot_eq_ok_iff.mp second
      simp only [withStack, List.size_toArray, List.length_append, Array.length_toList,
        List.length_singleton] at more
      rw [if_pos wide]
      exact ⟨more, by simp [withStack]⟩
    · next narrow =>
      cases second
      rw [if_neg narrow]
      exact ⟨room, rfl⟩
  · rintro ⟨room, rfl⟩
    exact push_of_room room

theorem popSlot_eq_ok_iff : popSlot frame = .ok value after ↔
    ∃ rest, frame.stack.toList = rest ++ [value] ∧ after = frame.withStack rest := by
  constructor
  · intro ended
    rcases List.eq_nil_or_concat frame.stack.toList with none | ⟨rest, last, slots⟩
    · rw [popSlot_eq, if_pos (by simpa using none)] at ended
      cases ended
    · rw [List.concat_eq_append] at slots
      rw [popSlot_of_last slots] at ended
      cases ended
      exact ⟨rest, slots, rfl⟩
  · rintro ⟨rest, slots, rfl⟩
    exact popSlot_of_last slots

/-- The value that is taken off the stack is the one on top of it. -/
theorem pop_eq_ok_iff : pop frame = .ok value after ↔
    ∃ rest, frame.Topped rest value ∧ after = frame.withStack rest := by
  constructor
  · intro ended
    obtain ⟨slot, between, first, ended⟩ := exists_of_bind_ok ended
    obtain ⟨rest, slots, rfl⟩ := popSlot_eq_ok_iff.mp first
    by_cases filler : slot = .top
    · subst filler
      obtain ⟨under, below, second, ended⟩ := exists_of_bind_ok ended
      obtain ⟨others, slots', rfl⟩ := popSlot_eq_ok_iff.mp second
      split at ended
      · next wide =>
        cases ended
        have both : frame.stack.toList = others ++ [value, .top] := by
          rw [slots, show rest = others ++ [value] from slots', List.append_assoc]
          rfl
        refine ⟨others, ⟨?_, .inr ⟨wide, both⟩⟩, rfl⟩
        rintro rfl
        cases wide
      · cases ended
    · have same : slot = value ∧ frame.withStack rest = after := by
        cases slot <;> first | exact absurd rfl filler | (cases ended; exact ⟨rfl, rfl⟩)
      obtain ⟨rfl, rfl⟩ := same
      exact ⟨rest, ⟨filler, .inl slots⟩, rfl⟩
  · rintro ⟨rest, ⟨proper, slots | ⟨wide, slots⟩⟩, rfl⟩
    · unfold pop
      simp only [Bind.bind, EStateM.bind, popSlot_of_last slots]
      cases value <;> first | exact absurd rfl proper | rfl
    · refine pop_of_last ?_ proper
      rw [slots, Value.toSlots, List.flatMap_singleton, if_pos wide]

/-- The local variable of a proper index is read. -/
theorem getLocal_eq_ok_iff {index : Nat} : getLocal index frame = .ok value after ↔
    frame.locals[index]? = some value ∧ after = frame := by
  obtain ⟨inside, outside⟩ := getLocal_checked index frame
  by_cases within : index < frame.locals.size
  · rw [inside within, Array.getElem?_eq_getElem within]
    constructor
    · intro ended
      cases ended
      exact ⟨rfl, rfl⟩
    · rintro ⟨same, rfl⟩
      cases same
      rfl
  · obtain ⟨error, ended⟩ := outside within
    rw [ended, Array.getElem?_eq_none (Nat.le_of_not_lt within)]
    exact ⟨nofun, fun same => by cases same.1⟩

theorem assigned_unique {index : Nat} {before one other : Array Value}
    (first : Assigned index value before one) (second : Assigned index value before other) :
    one = other :=
  Array.ext_getElem? fun i => (first i).trans (second i).symm

theorem assigned_set {index : Nat} {locals : Array Value} (narrow : value.isWide = false)
    (within : index < locals.size) : Assigned index value locals (locals.set index value) := by
  intro i
  simp only [Array.getElem?_set, narrow, Bool.false_eq_true, false_and, if_false, eq_comm]

theorem assigned_set_of_wide {index : Nat} {locals : Array Value} (wide : value.isWide = true)
    (within : index + 1 < locals.size)
    (before : index < (locals.set (index + 1) .top).size) :
    Assigned index value locals ((locals.set (index + 1) .top).set index value) := by
  intro i
  simp only [Array.getElem?_set, wide, true_and, eq_comm]

/-- A local variable is given a value exactly if there are the locals that the value takes. -/
theorem setLocal_eq_ok_iff {index : Nat} : setLocal index value frame = .ok () after ↔
    index + (Value.toSlots [value]).length ≤ frame.locals.size ∧
      ∃ locals, Assigned index value frame.locals locals ∧ after = { frame with locals } := by
  have unique {one : Array Value} (assigned : Assigned index value frame.locals one) :
      (.ok () { frame with locals := one } : EStateM.Result Error Frame Unit) = .ok () after ↔
        ∃ locals, Assigned index value frame.locals locals ∧ after = { frame with locals } := by
    constructor
    · intro same
      cases same
      exact ⟨one, assigned, rfl⟩
    · rintro ⟨locals, assigned', rfl⟩
      rw [assigned_unique assigned assigned']
  rw [Value.toSlots, List.flatMap_singleton]
  by_cases wide : value.isWide = true
  · obtain ⟨inside, outside⟩ := setLocal_checked_of_wide index wide frame
    rw [if_pos wide]
    by_cases within : index + 1 < frame.locals.size
    · rw [inside within, unique (assigned_set_of_wide wide within _)]
      exact (and_iff_right within).symm
    · obtain ⟨error, ended⟩ := outside within
      rw [ended]
      exact ⟨fun same => (by cases same), fun all => absurd all.1 within⟩
  · have narrow : value.isWide = false := by simpa using wide
    obtain ⟨inside, outside⟩ := setLocal_checked index narrow frame
    rw [if_neg wide]
    by_cases within : index < frame.locals.size
    · rw [inside within, unique (assigned_set narrow within)]
      exact (and_iff_right within).symm
    · obtain ⟨error, ended⟩ := outside within
      rw [ended]
      exact ⟨fun same => (by cases same), fun all => absurd all.1 within⟩

end Frame

/-- The operation of an item on a local variable, whatever form it is encoded in. Messages name the
instruction after the opcode that was read. -/
def CodeItem.onLocal? : CodeItem → Option (Opcode → Step Unit)
  | .load kind index => some fun op => Step.load op kind index.toNat
  | .store kind index => some fun op => Step.store op kind index.toNat
  | .iinc index delta => some fun _ => Step.increment index.toNat delta.toInt32
  | .ret index => some fun _ => Step.ret index.toNat
  | _ => none

/-- The end of the locals that an item takes. -/
def CodeItem.localsEnd : CodeItem → Nat
  | .load kind index | .store kind index => index.toNat + kind.slots
  | .iinc index _ | .ret index => index.toNat + 1
  | _ => 0

namespace Step

variable {services : Services} {state after : StepState} {machine : Machine} {frame : Frame}
  {cursor next : Nat} {op : Opcode} {kind : ValueKind} {index : Nat}

theorem bind_eq_ok_iff {α β : Type} {first : Step α} {then' : α → Step β} {result : β} :
    (first >>= then') services state = .ok result after ↔
      ∃ value middle, first services state = .ok value middle ∧
        then' value services middle = .ok result after := by
  constructor
  · exact exists_of_bind_ok
  · rintro ⟨value, middle, began, ended⟩
    rw [bind_of_ok began, ended]

theorem proceeding_eq_ok_iff {action : Step Unit} {going : Next} :
    proceeding action services state = .ok going after ↔
      going = .proceed ∧ action services state = .ok () after := by
  unfold proceeding
  rw [bind_eq_ok_iff]
  constructor
  · rintro ⟨⟨⟩, middle, acted, ended⟩
    cases ended
    exact ⟨rfl, acted⟩
  · rintro ⟨rfl, acted⟩
    exact ⟨(), after, acted, rfl⟩

theorem load_eq_ok_iff : load op kind index services ⟨machine, frame, next⟩ = .ok () after ↔
    ∃ value, frame.locals[index]? = some value ∧ value.kind = .value kind ∧
      frame.stack.size + kind.slots ≤ frame.code.maxStack ∧
      after = ⟨machine, frame.withStack (frame.stack.toList ++ Value.toSlots [value]), next⟩ := by
  unfold load
  rw [bind_eq_ok_iff]
  constructor
  · rintro ⟨value, middle, read, ended⟩
    obtain ⟨_, got, rfl⟩ := onFrame_eq_ok read
    obtain ⟨held, rfl⟩ := Frame.getLocal_eq_ok_iff.mp got
    dsimp only at ended
    split at ended
    · obtain ⟨_, _, faulted, -⟩ := exists_of_bind_ok ended
      cases faulted
    · next same =>
      obtain ⟨_, pushed, rfl⟩ := onFrame_eq_ok ended
      obtain ⟨room, rfl⟩ := Frame.push_eq_ok_iff.mp pushed
      have same := Decidable.not_not.mp same
      rw [length_toSlots_of_kind same] at room
      exact ⟨value, held, same, room, rfl⟩
  · rintro ⟨value, held, same, room, rfl⟩
    rw [← length_toSlots_of_kind same] at room
    refine ⟨value, _, onFrame_ok (Frame.getLocal_eq_ok_iff.mpr ⟨held, rfl⟩), ?_⟩
    dsimp only
    rw [if_neg (Decidable.not_not.mpr same)]
    exact onFrame_ok (Frame.push_eq_ok_iff.mpr ⟨room, rfl⟩)

theorem store_eq_ok_iff : store op kind index services ⟨machine, frame, next⟩ = .ok () after ↔
    ∃ value rest locals, frame.Topped rest value ∧ storable kind value = true ∧
      index + kind.slots ≤ frame.locals.size ∧ Frame.Assigned index value frame.locals locals ∧
      after = ⟨machine, { frame.withStack rest with locals }, next⟩ := by
  unfold store
  rw [bind_eq_ok_iff]
  constructor
  · rintro ⟨value, middle, taken, ended⟩
    obtain ⟨_, popped, rfl⟩ := onFrame_eq_ok taken
    obtain ⟨rest, topped, rfl⟩ := Frame.pop_eq_ok_iff.mp popped
    dsimp only at ended
    split at ended
    · obtain ⟨_, _, faulted, -⟩ := exists_of_bind_ok ended
      cases faulted
    · next takes =>
      obtain ⟨_, changed, rfl⟩ := onFrame_eq_ok ended
      obtain ⟨inside, locals, assigned, rfl⟩ := Frame.setLocal_eq_ok_iff.mp changed
      have takes : storable kind value = true := by simpa using takes
      rw [slots_of_storable takes] at inside
      exact ⟨value, rest, locals, topped, takes, inside, assigned, rfl⟩
  · rintro ⟨value, rest, locals, topped, takes, inside, assigned, rfl⟩
    rw [← slots_of_storable takes] at inside
    refine ⟨value, _, onFrame_ok (Frame.pop_eq_ok_iff.mpr ⟨rest, topped, rfl⟩), ?_⟩
    dsimp only
    rw [if_neg (by simpa using takes)]
    exact onFrame_ok (Frame.setLocal_eq_ok_iff.mpr ⟨inside, locals, assigned, rfl⟩)

theorem increment_eq_ok_iff {delta : Int32} :
    increment index delta services ⟨machine, frame, next⟩ = .ok () after ↔
      ∃ number locals, frame.locals[index]? = some (.int number) ∧
        Frame.Assigned index (.int (number + delta)) frame.locals locals ∧
        after = ⟨machine, { frame with locals }, next⟩ := by
  unfold increment
  rw [bind_eq_ok_iff]
  constructor
  · rintro ⟨value, middle, read, ended⟩
    obtain ⟨_, got, rfl⟩ := onFrame_eq_ok read
    obtain ⟨held, rfl⟩ := Frame.getLocal_eq_ok_iff.mp got
    cases value with
    | int number =>
      obtain ⟨_, changed, rfl⟩ := onFrame_eq_ok ended
      obtain ⟨-, locals, assigned, rfl⟩ := Frame.setLocal_eq_ok_iff.mp changed
      exact ⟨number, locals, held, assigned, rfl⟩
    | _ => cases ended
  · rintro ⟨number, locals, held, assigned, rfl⟩
    refine ⟨.int number, _, onFrame_ok (Frame.getLocal_eq_ok_iff.mpr ⟨held, rfl⟩), ?_⟩
    have inside := (Array.getElem?_eq_some_iff.mp held).1
    exact onFrame_ok (Frame.setLocal_eq_ok_iff.mpr ⟨inside, locals, assigned, rfl⟩)

theorem ret_eq_ok_iff : ret index services ⟨machine, frame, next⟩ = .ok () after ↔
    ∃ address, frame.locals[index]? = some (.returnAddress address) ∧
      after = ⟨machine, frame, address⟩ := by
  unfold ret
  rw [bind_eq_ok_iff]
  constructor
  · rintro ⟨value, middle, read, ended⟩
    obtain ⟨_, got, rfl⟩ := onFrame_eq_ok read
    obtain ⟨held, rfl⟩ := Frame.getLocal_eq_ok_iff.mp got
    cases value with
    | returnAddress address =>
      cases ended
      exact ⟨address, held, rfl⟩
    | _ => cases ended
  · rintro ⟨address, held, rfl⟩
    exact ⟨.returnAddress address, _, onFrame_ok (Frame.getLocal_eq_ok_iff.mpr ⟨held, rfl⟩), rfl⟩

theorem add_eq_ofInt (number : Int32) (delta : Int16) :
    number + delta.toInt32 = .ofInt (number.toInt + delta.toInt) := by
  rw [Int32.ofInt_add, Int32.ofInt_toInt]
  rfl

/-- **An access has its effect and no other**: where it completes, it does what is said of its
item. -/
theorem onLocal_eq_ok_iff {item : CodeItem} {plain : Opcode → Step Unit} {after : Frame}
    {machine' : Machine} (onLocal : item.onLocal? = some plain) :
    plain op services ⟨machine, frame, next⟩ = .ok () ⟨machine', after, cursor⟩ ↔
      machine' = machine ∧ frame.Accesses next item after cursor := by
  cases item with
  | load kind index =>
    cases onLocal
    rw [load_eq_ok_iff]
    constructor
    · rintro ⟨value, held, same, room, ended⟩
      cases ended
      exact ⟨rfl, .load held same room⟩
    · rintro ⟨rfl, access⟩
      cases access with
      | load held same room => exact ⟨_, held, same, room, rfl⟩
  | store kind index =>
    cases onLocal
    rw [store_eq_ok_iff]
    constructor
    · rintro ⟨value, rest, locals, topped, takes, inside, assigned, ended⟩
      cases ended
      exact ⟨rfl, .store topped takes inside assigned⟩
    · rintro ⟨rfl, access⟩
      cases access with
      | store topped takes inside assigned =>
        exact ⟨_, _, _, topped, takes, inside, assigned, rfl⟩
  | iinc index delta =>
    cases onLocal
    rw [increment_eq_ok_iff]
    constructor
    · rintro ⟨number, locals, held, assigned, ended⟩
      cases ended
      rw [add_eq_ofInt] at assigned
      exact ⟨rfl, .iinc held assigned⟩
    · rintro ⟨rfl, access⟩
      cases access with
      | iinc held assigned =>
        rw [← add_eq_ofInt] at assigned
        exact ⟨_, _, held, assigned, rfl⟩
  | ret index =>
    cases onLocal
    rw [ret_eq_ok_iff]
    constructor
    · rintro ⟨address, held, ended⟩
      cases ended
      exact ⟨rfl, .ret held⟩
    · rintro ⟨rfl, access⟩
      cases access with
      | ret held => exact ⟨_, held, rfl⟩
  | _ => cases onLocal

/-! ## Decoding -/

/-- The machine decodes bytes as an operation, which goes on where they end. -/
def Decodes (bytes : List UInt8) (plain : Step Unit) : Prop :=
  ∀ services machine frame, Holds frame.code.bytes.toList frame.pc bytes →
    instruction services ⟨machine, frame, frame.pc⟩ =
      proceeding plain services ⟨machine, frame, frame.pc + bytes.length⟩

theorem decodes_short {plain : Step Unit} (listed : op ∈ Opcode.all)
    (executes : execute op = proceeding plain) : Decodes [op.byte] plain := by
  intro services machine frame holds
  rw [Execution.instruction_of_opcode op (Opcode.ofByte?_byte listed) holds, executes]
  rfl

theorem toNat_toUInt8 {index : UInt16} (small : index ≤ 0xff) :
    index.toUInt8.toNat = index.toNat := by
  rw [UInt16.toNat_toUInt8]
  exact Nat.mod_eq_of_lt (Nat.lt_succ_of_le (UInt16.le_iff_toNat_le.mp small))

theorem decodes_indexed (plain : Nat → Step Unit) {index : UInt16} (listed : op ∈ Opcode.all)
    (executes : execute op = proceeding (do plain (← readByte).toNat)) (small : index ≤ 0xff) :
    Decodes [op.byte, index.toUInt8] (plain index.toNat) := by
  intro services machine frame holds
  obtain ⟨atOpcode, atIndex⟩ := holds_cons.mp holds
  have atIndex : Ahead ⟨machine, frame, frame.pc + 1⟩ [index.toUInt8] := atIndex
  rw [Execution.instruction_of_opcode op (Opcode.ofByte?_byte listed) atOpcode, executes,
    ← toNat_toUInt8 small]
  exact proceeding_congr (bind_eq_of_ok (readByte_of_ahead atIndex))

/-- An amount of one byte is read with its sign. -/
theorem decodes_increment {index : UInt16} {delta : Int16} (small : index ≤ 0xff)
    (near : delta.toInt8.toInt16 = delta) :
    Decodes [Opcode.iinc.byte, index.toUInt8, delta.toInt8.toUInt8]
      (increment index.toNat delta.toInt32) := by
  intro services machine frame holds
  obtain ⟨atOpcode, behind⟩ := holds_cons.mp holds
  have behind : Ahead ⟨machine, frame, frame.pc + 1⟩
    ([index.toUInt8] ++ [delta.toInt8.toUInt8]) := behind
  obtain ⟨atIndex, atDelta⟩ := ahead_append.mp behind
  have amount : delta.toInt8.toUInt8.toInt8.toInt32 = delta.toInt32 := by
    rw [Int8.toInt8_toUInt8, ← Int8.toInt32_toInt16, near]
  have signed : readSignedByte services ⟨machine, frame, frame.pc + 1 + 1⟩ =
      .ok delta.toInt32 ⟨machine, frame, frame.pc + 1 + 1 + 1⟩ := by
    rw [← amount]
    exact bind_eq_of_ok (readByte_of_ahead atDelta)
  rw [Execution.instruction_of_opcode .iinc (Opcode.ofByte?_byte (by decide)) atOpcode,
    ← toNat_toUInt8 small]
  exact proceeding_congr ((bind_eq_of_ok (readByte_of_ahead atIndex)).trans (bind_eq_of_ok signed))

/-- What the wide form of an instruction does with its index. -/
def widened (op : Opcode) (index : Nat) : Step Unit :=
  match op with
  | .load kind => load .wide kind index
  | .store kind => store .wide kind index
  | .iinc => do increment index (← readSignedShort)
  | .ret => ret index
  | _ => fault (.notWidenable (Opcode.mnemonicOfByte op.byte))

theorem wide_of_ahead {index : UInt16} (listed : op ∈ Opcode.all)
    (ahead : Ahead state ([op.byte] ++ Writer.u16 index)) :
    wide services state =
      widened op index.toNat services { state with cursor := state.cursor + 1 + 2 } := by
  obtain ⟨atWidened, atIndex⟩ := ahead_append.mp ahead
  have named := Opcode.ofByte?_byte listed
  have atIndex : Ahead { state with cursor := state.cursor + 1 } (Writer.u16 index) := atIndex
  unfold wide
  rw [bind_eq_of_ok (readByte_of_ahead atWidened), bind_eq_of_ok (readShort_of_ahead atIndex), named]
  cases op <;> rfl

theorem decodes_wide {plain : Step Unit} {index : UInt16} {operands : List UInt8}
    (listed : op ∈ Opcode.all)
    (runs : ∀ services state, Ahead state operands →
      widened op index.toNat services state =
        plain services { state with cursor := state.cursor + operands.length }) :
    Decodes (Opcode.wide.byte :: op.byte :: (Writer.u16 index ++ operands)) plain := by
  intro services machine frame holds
  obtain ⟨atOpcode, behind⟩ := holds_cons.mp holds
  have behind : Ahead ⟨machine, frame, frame.pc + 1⟩
    (([op.byte] ++ Writer.u16 index) ++ operands) := by
      rw [List.append_assoc]
      exact behind
  obtain ⟨atIndex, atOperands⟩ := ahead_append.mp behind
  have place : frame.pc + (Opcode.wide.byte :: op.byte :: (Writer.u16 index ++ operands)).length =
      frame.pc + 1 + 1 + 2 + operands.length := by
    simp only [List.length_cons, List.length_append, Writer.u16, List.length_nil]
    omega
  rw [Execution.instruction_of_opcode .wide (Opcode.ofByte?_byte (by decide)) atOpcode, place]
  exact proceeding_congr ((wide_of_ahead listed atIndex).trans (runs services _ atOperands))

end Step

theorem Opcode.load_mem_all (kind : ValueKind) : Opcode.load kind ∈ all := by
  cases kind <;> decide

theorem Opcode.loadShort_mem_all (kind : ValueKind) (index : Fin 4) :
    Opcode.loadShort kind index ∈ all := by
  revert index
  cases kind <;> decide

theorem Opcode.store_mem_all (kind : ValueKind) : Opcode.store kind ∈ all := by
  cases kind <;> decide

theorem Opcode.storeShort_mem_all (kind : ValueKind) (index : Fin 4) :
    Opcode.storeShort kind index ∈ all := by
  revert index
  cases kind <;> decide

namespace CodeBuilder

open Step (Decodes decodes_short decodes_indexed decodes_increment decodes_wide)

variable {start final before after : CodeBuilder} {items : List CodeItem} {body : CodeBody Attribute}
  {item : CodeItem} {plain : Opcode → Step Unit} {index : UInt16}

/-! ## The forms of an item -/

/-- The bytes of an instruction on a local variable. -/
def localBytes (long : Opcode) (short : Fin 4 → Opcode) (index : UInt16) : List UInt8 :=
  if h : index.toNat < 4 then [(short ⟨index.toNat, h⟩).byte]
  else if index ≤ 0xff then [long.byte, index.toUInt8]
  else Opcode.wide.byte :: long.byte :: Writer.u16 index

theorem lays_emitLocal (long : Opcode) (short : Fin 4 → Opcode) (index : UInt16) (slots : Nat) :
    Within (Lays (Piece.ofBytes (localBytes long short index)))
      (emitLocal long short index slots) := by
  unfold emitLocal localBytes
  refine lays_quiet_seq (quiet_lays.within_touchLocal _ _) fun _ => ?_
  split
  · exact lays_emit _
  · split
    · exact lays_emit _
    · exact lays_emit _

/-- The bytes of an instruction that adds to a local variable. -/
def incrementBytes (index : UInt16) (delta : Int16) : List UInt8 :=
  if delta.toInt8.toInt16 = delta ∧ index ≤ 0xff then
    [Opcode.iinc.byte, index.toUInt8, delta.toInt8.toUInt8]
  else Opcode.wide.byte :: Opcode.iinc.byte :: (Writer.u16 index ++ Writer.u16 delta.toUInt16)

theorem lays_emitIncrement (index : UInt16) (delta : Int16) :
    Within (Lays (Piece.ofBytes (incrementBytes index delta))) (emitIncrement index delta) := by
  unfold emitIncrement incrementBytes
  refine lays_quiet_seq (quiet_lays.within_touchLocal _ _) fun _ => ?_
  split
  · exact lays_emit _
  · exact lays_emit _

/-- Bytes are a form of an operation: they begin with the opcode that messages name, and are decoded
as the operation. -/
def IsForm (plain : Opcode → Step Unit) (bytes : List UInt8) : Prop :=
  ∃ op, bytes.head? = some op.byte ∧ Decodes bytes (plain op)

theorem isForm_localBytes {long : Opcode} {short : Fin 4 → Opcode}
    (plain : Opcode → Nat → Step Unit) (longListed : long ∈ Opcode.all)
    (shortListed : ∀ index, short index ∈ Opcode.all)
    (executesLong : Step.execute long = Step.proceeding (do plain long (← Step.readByte).toNat))
    (executesShort : ∀ index, Step.execute (short index) =
      Step.proceeding (plain (short index) index.val))
    (widens : Step.widened long = plain .wide) (index : UInt16) :
    IsForm (plain · index.toNat) (localBytes long short index) := by
  unfold localBytes
  split
  · exact ⟨_, rfl, decodes_short (shortListed _) (executesShort _)⟩
  · split
    · next small => exact ⟨_, rfl, decodes_indexed _ longListed executesLong small⟩
    · refine ⟨.wide, rfl, ?_⟩
      rw [← List.append_nil (Writer.u16 index)]
      refine decodes_wide longListed fun services state _ => ?_
      rw [widens]
      rfl

theorem isForm_incrementBytes (index : UInt16) (delta : Int16) :
    IsForm (fun _ => Step.increment index.toNat delta.toInt32) (incrementBytes index delta) := by
  unfold incrementBytes
  split
  · next near => exact ⟨_, rfl, decodes_increment near.2 near.1⟩
  · refine ⟨.wide, rfl, decodes_wide (by decide) fun services state ahead => ?_⟩
    have read : Step.readSignedShort services state = _ := Step.readSignedShort_of_ahead ahead
    exact Step.bind_eq_of_ok read

theorem isForm_retBytes (index : UInt16) :
    IsForm (fun _ => Step.ret index.toNat) (retBytes index) := by
  unfold retBytes
  split
  · next small =>
    exact ⟨_, rfl, decodes_indexed Step.ret (by decide) rfl small⟩
  · refine ⟨.wide, rfl, ?_⟩
    rw [← List.append_nil (Writer.u16 index)]
    exact decodes_wide (by decide) fun services state _ => rfl

/-- The assembler emits an item on a local variable in a form of its operation. -/
theorem exists_isForm (onLocal : item.onLocal? = some plain) :
    ∃ bytes, Within (Lays (Piece.ofBytes bytes)) (CodeBuilder.item item) ∧ IsForm plain bytes := by
  cases item with
  | load kind index =>
    cases onLocal
    exact ⟨_, lays_seq_quiet (lays_emitLocal _ _ _ _) fun _ => quiet_lays.within_adjust _ _,
      isForm_localBytes (fun op => Step.load op kind) (Opcode.load_mem_all kind)
        (Opcode.loadShort_mem_all kind) rfl (fun _ => rfl) rfl index⟩
  | store kind index =>
    cases onLocal
    exact ⟨_, lays_quiet_seq (quiet_lays.within_adjust _ _) fun _ => lays_emitLocal _ _ _ _,
      isForm_localBytes (fun op => Step.store op kind) (Opcode.store_mem_all kind)
        (Opcode.storeShort_mem_all kind) rfl (fun _ => rfl) rfl index⟩
  | iinc index delta =>
    cases onLocal
    exact ⟨_, lays_emitIncrement index delta, isForm_incrementBytes index delta⟩
  | ret index =>
    cases onLocal
    exact ⟨_, lays_emitRet index, isForm_retBytes index⟩
  | _ => cases onLocal

/-! ## The room for locals -/

/-- The number of locals that are needed never gets smaller and stays within two bytes; what was
chosen instead stays. -/
structure Reserves (before after : CodeBuilder) : Prop where
  grows : before.maxLocals ≤ after.maxLocals
  bounded : before.maxLocals ≤ 0xffff → after.maxLocals ≤ 0xffff
  chosen : after.chosenMaxLocals = before.chosenMaxLocals

theorem stepwise_reserves : Stepwise Reserves where
  refl _ := ⟨le_rfl, id, rfl⟩
  trans near far := ⟨near.grows.trans far.grows, far.bounded ∘ near.bounded,
    far.chosen.trans near.chosen⟩
  pool _ := ⟨le_rfl, id, rfl⟩
  slots _ _ := ⟨le_rfl, id, rfl⟩
  ends _ := ⟨le_rfl, id, rfl⟩
  learn _ _ _ := ⟨le_rfl, id, rfl⟩
  locals _ _ := ⟨le_max_left _ _, fun small => max_le small (min_le_right _ _), rfl⟩
  room _ _ := ⟨le_rfl, id, rfl⟩
  bytes _ _ := ⟨le_rfl, id, rfl⟩
  offset _ _ _ _ := ⟨le_rfl, id, rfl⟩

theorem reserves_of_item (unchosen : ∀ slots, item ≠ .maxLocals slots)
    (ended : CodeBuilder.item item before = .ok ((), after)) : Reserves before after := by
  refine stepwise_reserves.within_item item (fun label _ => ?_) (fun start stop target type _ => ?_)
    (fun slots same => absurd same (unchosen slots)) _ _ _ ended
  · intro before result after ended
    rcases bindLabel_cases ended with ⟨-, labels, rfl⟩ | ⟨-, rfl⟩
    · exact ⟨le_rfl, id, rfl⟩
    · exact ⟨le_rfl, id, rfl⟩
  · intro before result after ended
    obtain ⟨pool, catchType, -, -, rfl⟩ := addHandler_eq_ok ended
    exact ⟨le_rfl, id, rfl⟩

theorem reserves_of_items (unchosen : ∀ slots, .maxLocals slots ∉ items)
    (emitted : items.forM CodeBuilder.item start = .ok ((), final)) : Reserves start final := by
  induction items generalizing start with
  | nil =>
    cases emitted
    exact stepwise_reserves.refl final
  | cons first rest ih =>
    obtain ⟨middle, began, emitted⟩ := forM_cons_eq_ok.mp emitted
    have others (slots : UInt16) : .maxLocals slots ∉ rest :=
      fun member => unchosen slots (List.mem_cons_of_mem _ member)
    have other (slots : UInt16) : first ≠ .maxLocals slots :=
      fun same => unchosen slots (same ▸ List.mem_cons_self)
    exact stepwise_reserves.trans (reserves_of_item other began) (ih others emitted)

/-- So many locals are there room for afterwards. -/
def Covers (count : Nat) (_before after : CodeBuilder) : Prop :=
  count ≤ after.maxLocals

theorem covers_touchLocal {slots : Nat} (small : index.toNat + slots ≤ 0xffff) :
    Within (Covers (index.toNat + slots)) (touchLocal index slots) :=
  within_modify fun _ => (le_min le_rfl small).trans (le_max_right _ _)

theorem covers_seq {α β : Type} {count : Nat} {step : Assembling α} {next : α → Assembling β}
    (first : Within (Covers count) step) (rest : ∀ value, Within Reserves (next value)) :
    Within (Covers count) (step >>= next) := by
  intro before result after ended
  obtain ⟨value, middle, began, ended⟩ := Assembling.exists_of_bind ended
  exact (first before value middle began).trans (rest value middle result after ended).grows

theorem seq_covers {α β : Type} {count : Nat} {step : Assembling α} {next : α → Assembling β}
    (rest : ∀ value, Within (Covers count) (next value)) : Within (Covers count) (step >>= next) := by
  intro before result after ended
  obtain ⟨value, middle, -, ended⟩ := Assembling.exists_of_bind ended
  exact rest value middle result after ended

theorem covers_emitLocal (long : Opcode) (short : Fin 4 → Opcode) {slots : Nat}
    (small : index.toNat + slots ≤ 0xffff) :
    Within (Covers (index.toNat + slots)) (emitLocal long short index slots) := by
  refine covers_seq (covers_touchLocal small) fun _ => ?_
  split
  · exact stepwise_reserves.within_emitOp _ _
  · split
    · exact stepwise_reserves.within_emitOp _ _
    · exact stepwise_reserves.within_emitOp _ _

/-- Emitting an item on a local variable makes room for the locals that it takes. -/
theorem covers_item (onLocal : item.onLocal? = some plain) (small : item.localsEnd ≤ 0xffff) :
    Within (Covers item.localsEnd) (CodeBuilder.item item) := by
  cases item with
  | load kind index =>
    exact covers_seq (covers_emitLocal _ _ small) fun _ => stepwise_reserves.within_adjust _ _
  | store kind index => exact seq_covers fun _ => covers_emitLocal _ _ small
  | iinc index delta =>
    refine covers_seq (covers_touchLocal small) fun _ => ?_
    split
    · exact stepwise_reserves.within_emitOp _ _
    · exact stepwise_reserves.within_emitOp _ _
  | ret index =>
    refine covers_seq (covers_touchLocal small) fun _ => ?_
    split
    · exact stepwise_reserves.seq (stepwise_reserves.within_emitOp _ _) fun _ =>
        stepwise_reserves.within_endBlock
    · exact stepwise_reserves.seq (stepwise_reserves.within_emitOp _ _) fun _ =>
        stepwise_reserves.within_endBlock
  | _ => cases onLocal

theorem maxLocals_of_finish (finished : final.finish = .ok body) :
    body.maxLocals = final.chosenMaxLocals.getD (UInt16.ofNat final.maxLocals) := by
  unfold finish at finished
  split at finished
  · cases finished
  · obtain ⟨code, -, finished⟩ := Except.bind_eq_ok_iff.mp finished
    obtain ⟨handlers, -, finished⟩ := Except.bind_eq_ok_iff.mp finished
    cases finished
    rfl

/-! ## Bodies -/

/-- A body that is assembled for a method, before anything is emitted. -/
def opening (pool : PoolBuilder) (isStatic : Bool) (method : MethodDescriptor) (labels : Nat) :
    CodeBuilder where
  pool
  labels := Array.replicate labels {}
  maxLocals := (method.parameterSlots + if isStatic then 0 else 1) % 0x10000

theorem fresh_opening (pool : PoolBuilder) (isStatic : Bool) (method : MethodDescriptor)
    (labels : Nat) : Fresh (opening pool isStatic method labels) where
  code := rfl
  fixups := rfl
  handlers := rfl
  unbound label := by
    simp only [offset?, opening, Array.getD_eq_getD_getElem?, Array.getElem?_replicate]
    split
    · rfl
    · rfl

/-- An item on a local variable at an offset of a body is carried out by one step of the machine. -/
structure AccessesLocal (items : List CodeItem) (body : CodeBody Attribute) (item : CodeItem)
    (plain : Opcode → Step Unit) (offset next : Nat) : Prop where
  /-- Whatever form the item has, the machine decodes it as the operation, and goes on behind the
  bytes of the item. -/
  decodes : ∃ op, body.code[offset]? = some op.byte ∧
    ∀ frame, frame.At body offset → ∀ services machine,
      Step.instruction services ⟨machine, frame, frame.pc⟩ =
        Step.proceeding (plain op) services ⟨machine, frame, next⟩
  /-- A step that completes has the effect on the local variable, and where there can be one, the
  step completes. -/
  effect {frame after : Frame} {services : Services} {machine machine' : Machine} {cursor : Nat}
    {going : Next} (place : frame.At body offset) :
    Step.instruction services ⟨machine, frame, frame.pc⟩ = .ok going ⟨machine', after, cursor⟩ ↔
      going = .proceed ∧ machine' = machine ∧ frame.Accesses next item after cursor
  /-- The body has the locals that the item takes. -/
  covered (unchosen : ∀ slots, .maxLocals slots ∉ items) (small : item.localsEnd ≤ 0xffff) :
    item.localsEnd ≤ body.maxLocals.toNat

namespace Assembled

variable (assembled : Assembled start items final body)
include assembled

/-- Whatever form an item on a local variable has, the machine decodes it as the operation of the
item, and goes on behind its bytes. -/
theorem exists_decodes {offset next : Nat} (placed : Placed start items item offset next)
    (onLocal : item.onLocal? = some plain) : ∃ op, body.code[offset]? = some op.byte ∧
      ∀ frame, frame.At body offset → ∀ services machine,
        Step.instruction services ⟨machine, frame, frame.pc⟩ =
          Step.proceeding (plain op) services ⟨machine, frame, next⟩ := by
  obtain ⟨before, after, added, rfl, rfl, -, known⟩ := assembled.exists_of_placed placed
  obtain ⟨bytes, lays, op, first, decodes⟩ := exists_isForm onLocal
  have emits := (lays _ _ _ added).emits
  obtain ⟨holds, -⟩ := known _ emits
  have size := emits.size
  rw [Piece.encode_ofBytes] at holds
  rw [Piece.blank_ofBytes] at size
  refine ⟨op, ?_, fun frame place services machine => ?_⟩
  · obtain ⟨rest, rfl⟩ := List.head?_eq_some_iff.mp first
    exact (holds_cons.mp holds).1.getElem?
  · have code : frame.code.bytes.toList = body.code := by rw [place.code]
    rw [← code, ← place.pc] at holds
    rw [size, ← place.pc]
    exact decodes services machine frame holds

theorem accessesLocal (unchosen : start.chosenMaxLocals = none) (bounded : start.maxLocals ≤ 0xffff)
    {offset next : Nat} (placed : Placed start items item offset next)
    (onLocal : item.onLocal? = some plain) : AccessesLocal items body item plain offset next := by
  have decodes := assembled.exists_decodes placed onLocal
  refine ⟨decodes, ?_, ?_⟩
  · intro frame after services machine machine' cursor going place
    obtain ⟨op, -, runs⟩ := decodes
    have onLocal : plain op services ⟨machine, frame, next⟩ = .ok () ⟨machine', after, cursor⟩ ↔ _ :=
      Step.onLocal_eq_ok_iff onLocal
    rw [runs frame place services machine, ← onLocal]
    exact Step.proceeding_eq_ok_iff
  · intro unchosenItems small
    obtain ⟨front, back, before, after, rfl, reached, added, behind, -, -⟩ :=
      assembled.exists_around placed
    have whole := reserves_of_items unchosenItems assembled.emitted
    have rest := reserves_of_items (fun slots member => unchosenItems slots
      (List.mem_append_right _ (List.mem_cons_of_mem _ member))) behind
    have covers := (covers_item onLocal small _ _ _ added).trans rest.grows
    rw [maxLocals_of_finish assembled.finished, whole.chosen, unchosen, Option.getD_none,
      UInt16.toNat_ofNat_of_lt' (Nat.lt_succ_of_le (whole.bounded bounded))]
    exact covers

end Assembled

/-- **What an instruction on a local variable does is independent of its form.** -/
theorem accessesLocals_of_assemble {pool grown : PoolBuilder} {isStatic : Bool} {descriptor : String}
    {labels : Nat} (ended : assemble pool isStatic descriptor labels items = .ok (body, grown)) :
    ∃ method, MethodDescriptor.ofDescriptor? descriptor = some method ∧
      ∀ item plain, item ∈ items → item.onLocal? = some plain →
        (∃ offset next, Placed (opening pool isStatic method labels) items item offset next) ∧
        ∀ offset next, Placed (opening pool isStatic method labels) items item offset next →
          AccessesLocal items body item plain offset next := by
  unfold assemble at ended
  split at ended
  · cases ended
  · next method parsed =>
    obtain ⟨⟨⟨⟩, final⟩, emitted, ended⟩ := Except.bind_eq_ok_iff.mp ended
    obtain ⟨finished, ended', ended⟩ := Except.bind_eq_ok_iff.mp ended
    cases ended
    have assembled : Assembled (opening pool isStatic method labels) items final body :=
      ⟨fresh_opening pool isStatic method labels, emitted, ended'⟩
    refine ⟨method, parsed, fun item plain member onLocal => ⟨assembled.exists_placed member, ?_⟩⟩
    intro offset next placed
    exact assembled.accessesLocal rfl (Nat.le_of_lt_succ (Nat.mod_lt _ (by decide))) placed onLocal

/-- Copies a double from the first local into one that only the wide form reaches. -/
def copying : List CodeItem :=
  [.load .double 0, .store .double 300, .iinc 2 (-129), .plain Opcode.returnVoid.byte]

theorem accessesLocals_of_assemble_copying : ∃ body grown method offset next,
    assemble {} true "(DI)V" 0 copying = .ok (body, grown) ∧
      Placed (opening {} true method 0) copying (.store .double 300) offset next ∧
      AccessesLocal copying body (.store .double 300) (fun op => Step.store op .double 300)
        offset next ∧
      302 ≤ body.maxLocals.toNat := by
  have completes : (assemble {} true "(DI)V" 0 copying).isOk = true := by decide +kernel
  cases ended : assemble {} true "(DI)V" 0 copying with
  | error fault =>
    rw [ended] at completes
    cases completes
  | ok result =>
    obtain ⟨body, grown⟩ := result
    obtain ⟨method, -, accesses⟩ := accessesLocals_of_assemble ended
    obtain ⟨⟨offset, next, placed⟩, each⟩ :=
      accesses (.store .double 300) _ (by decide) rfl
    have access := each offset next placed
    exact ⟨body, grown, method, offset, next, rfl, placed, access,
      access.covered (by simp [copying]) (by decide)⟩

/-- Puts a number into a local and returns it, with a number of locals that was chosen too small. -/
def cramped : List CodeItem :=
  [.maxLocals 1, .iconst 7, .store .int 5, .load .int 5, .plain (Opcode.returnValue .int).byte]

/-- **A number of locals that was chosen is not adapted** to the locals that instructions use. -/
theorem cramped_uncovered : ∃ body grown item,
    assemble {} true "()I" 0 cramped = .ok (body, grown) ∧ item ∈ cramped ∧
      item.onLocal?.isSome = true ∧ item.localsEnd ≤ 0xffff ∧ body.maxLocals.toNat < item.localsEnd := by
  have facts : (assemble {} true "()I" 0 cramped).toOption.map (fun ended => ended.1.maxLocals) =
      some 1 := by decide +kernel
  cases ended : assemble {} true "()I" 0 cramped with
  | error fault =>
    rw [ended] at facts
    cases facts
  | ok result =>
    obtain ⟨body, grown⟩ := result
    rw [ended] at facts
    have chosen : body.maxLocals = 1 := Option.some.inj facts
    refine ⟨body, grown, .load .int 5, rfl, by decide, rfl, by decide, ?_⟩
    rw [chosen]
    decide

end CodeBuilder

end JavaMachine
