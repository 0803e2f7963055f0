import JavaMachine.Machine.Execution
import JavaMachine.Proofs.Assembler.Layout
import JavaMachine.Proofs.ClassFile.Inverse
import JavaMachine.Proofs.Instruction.Place

/-! # Where control goes in an assembled body

Branches, switches and returns from subroutines are encoded by the assembler and decoded by the
machine. The code of a finished body holds the operands where the machine reads them, so that each
of these instructions goes on at the place of the label that its item names
(`CodeBuilder.transfers_of_finish`), at any alignment, forwards and backwards. -/

namespace JavaMachine

open CodeBuilder (Holds holds_append holds_cons)

namespace Opcode

theorem nodup_all : all.Nodup := by
  decide +kernel

theorem ofByte?_byte {op : Opcode} (listed : op ∈ all) : ofByte? op.byte = some op := by
  have few : all.length < 256 := by decide +kernel
  have inside : all.idxOf op < all.length := List.idxOf_lt_length_iff.mpr listed
  have position : op.byte.toNat = all.idxOf op := by
    rw [byte, UInt8.toNat_ofNat', Nat.mod_eq_of_lt (inside.trans few)]
  rw [ofByte?, table, position, List.getElem?_toArray, List.getElem?_eq_getElem inside,
    List.getElem_idxOf inside]

theorem byte_of_ofByte? {byte : UInt8} {op : Opcode} (named : ofByte? byte = some op) :
    op.byte = byte := by
  have listed : all[byte.toNat]? = some op := by
    rw [← List.getElem?_toArray]
    exact named
  obtain ⟨inside, found⟩ := List.getElem?_eq_some_iff.mp listed
  rw [Opcode.byte, ← found, List.Nodup.idxOf_getElem nodup_all, UInt8.ofNat_toNat]

end Opcode

namespace Frame

variable {α : Type}

/-- Whether a branch is taken that has another instruction behind it: what is compared is popped,
and a call of a subroutine pushes where to return to. -/
def decides (next : Nat) : Opcode → FrameM Bool
  | .ifInt condition => do return condition.holds (← popInt) 0
  | .ifNull null => do return (← popReference).isNone == null
  | .ifInts condition => do
    let b ← popInt
    return condition.holds (← popInt) b
  | .ifReferences equal => do
    let b ← popReference
    return ((← popReference) == b) == equal
  | .jsr => do
    push (.returnAddress next)
    return true
  | _ => return true

theorem stays_decides (next : Nat) (op : Opcode) : Stays (decides next op) := by
  cases op with
  | ifInt condition => exact stays_popInt.bind fun _ => stays_pure _
  | ifNull null => exact stays_popReference.bind fun _ => stays_pure _
  | ifInts condition => exact stays_popInt.bind fun _ => stays_popInt.bind fun _ => stays_pure _
  | ifReferences equal =>
    exact stays_popReference.bind fun _ => stays_popReference.bind fun _ => stays_pure _
  | jsr => exact (stays_push _).bind fun _ => stays_pure _
  | _ => exact stays_pure _

theorem Stays.samePlace {operation : FrameM α} {value : α} {frame after : Frame}
    (stays : Stays operation) (ended : operation frame = .ok value after) :
    frame.SamePlace after := by
  have kept := stays frame
  rw [ended] at kept
  exact kept.place

end Frame

/-! ## Reading operands -/

namespace Writer

theorem join_bytes (value : UInt16) :
    (value >>> 8).toUInt8.toUInt16 <<< 8 ||| value.toUInt8.toUInt16 = value := by
  have read : Reader.u16 (u16 value ++ []) = .ok (value, []) := Reader.u16_eq_ok.mpr rfl
  exact (Prod.mk.inj (Except.ok.inj read)).1

theorem join_halves (value : UInt32) :
    (value >>> 16).toUInt16.toUInt32 <<< 16 ||| value.toUInt16.toUInt32 = value := by
  apply UInt32.toBitVec_inj.mp
  ext i inside
  simp [-UInt32.toUInt32_toUInt16]
  grind

theorem u32_eq_append (value : UInt32) :
    u32 value = u16 (value >>> 16).toUInt16 ++ u16 value.toUInt16 := by
  have same {a b : UInt8} (bits : ∀ i (inside : i < 8), a.toBitVec[i] = b.toBitVec[i]) : a = b :=
    UInt8.toBitVec_inj.mp (BitVec.eq_of_getElem_eq bits)
  simp only [u32, u16, List.cons_append, List.nil_append, List.cons.injEq, and_true]
  refine ⟨?_, ?_, ?_, ?_⟩ <;> refine same fun i inside => ?_
  all_goals simp
  all_goals grind

end Writer

namespace Step

variable {services : Services} {state : StepState} {α β : Type}

theorem bind_eq_of_ok {first : Step α} {next : α → Step β} {value : α} {after : StepState}
    (ended : first services state = .ok value after) :
    (first >>= next) services state = next value services after := by
  simp only [Bind.bind, ReaderT.bind, EStateM.bind, ended]

/-- The code holds bytes at the cursor. -/
def Ahead (state : StepState) (bytes : List UInt8) : Prop :=
  Holds state.frame.code.bytes.toList state.cursor bytes

theorem ahead_append {first second : List UInt8} :
    Ahead state (first ++ second) ↔
      Ahead state first ∧ Ahead { state with cursor := state.cursor + first.length } second :=
  holds_append

theorem ahead_cons {byte : UInt8} {rest : List UInt8} :
    Ahead state (byte :: rest) ↔
      Ahead state [byte] ∧ Ahead { state with cursor := state.cursor + 1 } rest :=
  holds_cons

theorem readByte_of_ahead {byte : UInt8} (ahead : Ahead state [byte]) :
    readByte services state = .ok byte { state with cursor := state.cursor + 1 } := by
  have found := ahead.getElem?
  rw [Array.getElem?_toList] at found
  unfold readByte
  simp only [Bind.bind, ReaderT.bind, EStateM.bind, cursor, frame, found]
  rfl

theorem readShort_of_ahead {value : UInt16} (ahead : Ahead state (Writer.u16 value)) :
    readShort services state = .ok value { state with cursor := state.cursor + 2 } := by
  obtain ⟨high, low⟩ := ahead_cons.mp ahead
  have joined : (.ok ((value >>> 8).toUInt8.toUInt16 <<< 8 ||| value.toUInt8.toUInt16)
      { state with cursor := state.cursor + 2 } : EStateM.Result Interruption StepState UInt16) =
      .ok value { state with cursor := state.cursor + 2 } := by
    rw [Writer.join_bytes]
  exact (bind_eq_of_ok (readByte_of_ahead high)).trans
    ((bind_eq_of_ok (readByte_of_ahead low)).trans joined)

theorem readInt_of_ahead {value : UInt32} (ahead : Ahead state (Writer.u32 value)) :
    readInt services state = .ok value.toInt32 { state with cursor := state.cursor + 4 } := by
  rw [Writer.u32_eq_append] at ahead
  obtain ⟨high, low⟩ := ahead_append.mp ahead
  have joined : (.ok ((value >>> 16).toUInt16.toUInt32 <<< 16 ||| value.toUInt16.toUInt32).toInt32
      { state with cursor := state.cursor + 4 } : EStateM.Result Interruption StepState Int32) =
      .ok value.toInt32 { state with cursor := state.cursor + 4 } := by
    rw [Writer.join_halves]
  exact (bind_eq_of_ok (readShort_of_ahead high)).trans
    ((bind_eq_of_ok (readShort_of_ahead low)).trans joined)

theorem readSignedShort_of_ahead {value : UInt16} (ahead : Ahead state (Writer.u16 value)) :
    readSignedShort services state =
      .ok value.toInt16.toInt32 { state with cursor := state.cursor + 2 } := by
  unfold readSignedShort
  rw [bind_eq_of_ok (readShort_of_ahead ahead)]
  rfl

/-! ## Branches -/

theorem branch_of_place {offset : Int32} {place : Nat}
    (target : (state.frame.pc : Int) + offset.toInt = place) :
    branch offset services state =
      if place < state.frame.code.bytes.size then .ok () { state with cursor := place }
      else .error (.fatal (.virtualMachine
        (.instruction state.frame.site state.frame.pc (.branchTarget place)))) state := by
  unfold branch targetOf
  simp only [Bind.bind, ReaderT.bind, EStateM.bind, frame, target, Int.natCast_nonneg, true_and,
    Nat.cast_lt]
  by_cases inside : place < state.frame.code.bytes.size
  · rw [if_pos inside, if_pos inside]
    rfl
  · rw [if_neg inside, if_neg inside]
    rfl

theorem onFrame_bind (operation : FrameM α) (next : α → FrameM β) :
    onFrame (operation >>= next) = onFrame operation >>= fun value => onFrame (next value) := by
  funext services state
  simp only [onFrame, Bind.bind, ReaderT.bind, EStateM.bind]
  cases operation state.frame with
  | ok value after => rfl
  | error error after => rfl

theorem onFrame_pure (value : α) : onFrame (pure value) = pure value :=
  rfl

/-- A branch that calls no subroutine decides first and reads its offset then. -/
theorem execute_eq_branching {op : Opcode} {pops : Nat} (branches : CodeBuilder.branchPops op = some pops)
    (plain : op ≠ .jsr) (next : Nat) :
    execute op = proceeding (onFrame (Frame.decides next op) >>= branchIf) := by
  cases op with
  | ifInt condition =>
    rw [Frame.decides, onFrame_bind]
    simp only [onFrame_pure, bind_assoc, pure_bind]
    rfl
  | ifNull null =>
    rw [Frame.decides, onFrame_bind]
    simp only [onFrame_pure, bind_assoc, pure_bind]
    rfl
  | ifInts condition =>
    simp only [Frame.decides, onFrame_bind, onFrame_pure, bind_assoc, pure_bind]
    rfl
  | ifReferences equal =>
    simp only [Frame.decides, onFrame_bind, onFrame_pure, bind_assoc, pure_bind]
    rfl
  | goto =>
    simp only [Frame.decides, onFrame_pure, pure_bind]
    rfl
  | jsr => exact absurd rfl plain
  | _ => cases branches

theorem branchIf_of_ahead {value : UInt16} (taken : Bool) (ahead : Ahead state (Writer.u16 value)) :
    branchIf taken services state =
      (if taken then branch value.toInt16.toInt32 else pure ()) services
        { state with cursor := state.cursor + 2 } :=
  bind_eq_of_ok (readSignedShort_of_ahead ahead)

theorem onFrame_ok {operation : FrameM α} {value : α} {after : Frame}
    (ended : operation state.frame = .ok value after) :
    onFrame operation services state = .ok value { state with frame := after } := by
  simp only [onFrame, ended]

theorem onFrame_error {operation : FrameM α} {error : Error} {after : Frame}
    (ended : operation state.frame = .error error after) :
    onFrame operation services state = .error (.fatal error) { state with frame := after } := by
  simp only [onFrame, ended]

theorem bind_eq_of_error {first : Step α} {next : α → Step β} {interruption : Interruption}
    {after : StepState} (ended : first services state = .error interruption after) :
    (first >>= next) services state = .error interruption after := by
  simp only [Bind.bind, ReaderT.bind, EStateM.bind, ended]

theorem proceeding_congr {action other : Step Unit} {state' : StepState}
    (same : action services state = other services state') :
    proceeding action services state = proceeding other services state' := by
  simp only [proceeding, Bind.bind, ReaderT.bind, EStateM.bind, same]

/-- A call of a subroutine reads its offset first, and decides then. -/
theorem execute_jsr {value : UInt16} (ahead : Ahead state (Writer.u16 value)) :
    execute .jsr services state =
      proceeding (onFrame (Frame.decides (state.cursor + 2) .jsr) >>= fun taken =>
        if taken then branch value.toInt16.toInt32 else pure ()) services
        { state with cursor := state.cursor + 2 } := by
  have decides : (onFrame (Frame.decides (state.cursor + 2) .jsr) >>= fun taken =>
      if taken then branch value.toInt16.toInt32 else pure ()) =
      onFrame (Frame.push (.returnAddress (state.cursor + 2))) >>= fun _ =>
        branch value.toInt16.toInt32 := by
    rw [Frame.decides, onFrame_bind]
    simp only [onFrame_pure, bind_assoc, pure_bind, if_pos]
  rw [decides]
  exact proceeding_congr (bind_eq_of_ok (readSignedShort_of_ahead ahead))

/-- A branch that has decided goes to its target or to the instruction behind it. -/
theorem execute_of_decides {op : Opcode} {pops : Nat} {value : UInt16} {taken : Bool}
    {after : Frame} (branches : CodeBuilder.branchPops op = some pops)
    (ahead : Ahead state (Writer.u16 value))
    (decided : Frame.decides (state.cursor + 2) op state.frame = .ok taken after) :
    execute op services state =
      proceeding (if taken then branch value.toInt16.toInt32 else pure ()) services
        { state with frame := after, cursor := state.cursor + 2 } := by
  by_cases calls : op = .jsr
  · subst calls
    rw [execute_jsr ahead]
    exact proceeding_congr (bind_eq_of_ok (onFrame_ok decided))
  · have still : Ahead { state with frame := after } (Writer.u16 value) := by
      obtain ⟨_, _, rfl⟩ := (Frame.stays_decides _ op).samePlace decided
      exact ahead
    rw [execute_eq_branching branches calls (state.cursor + 2)]
    exact proceeding_congr ((bind_eq_of_ok (onFrame_ok decided)).trans (branchIf_of_ahead taken still))

/-- A branch that cannot decide fails. -/
theorem execute_of_not_decides (services : Services) {op : Opcode} {pops : Nat} {value : UInt16} {error : Error}
    {after : Frame} (branches : CodeBuilder.branchPops op = some pops)
    (ahead : Ahead state (Writer.u16 value))
    (failed : Frame.decides (state.cursor + 2) op state.frame = .error error after) :
    ∃ frame cursor,
      execute op services state = .error (.fatal error) ⟨state.machine, frame, cursor⟩ := by
  by_cases calls : op = .jsr
  · subst calls
    rw [execute_jsr ahead]
    exact ⟨_, _, bind_eq_of_error (bind_eq_of_error (onFrame_error failed))⟩
  · rw [execute_eq_branching branches calls (state.cursor + 2)]
    exact ⟨_, _, bind_eq_of_error (bind_eq_of_error (onFrame_error failed))⟩

/-! ## Switches -/

theorem length_flatMap_u32 (values : List UInt32) : (values.flatMap Writer.u32).length = 4 * values.length := by
  induction values with
  | nil => rfl
  | cons first rest ih =>
    have row : (Writer.u32 first).length = 4 := rfl
    rw [List.flatMap_cons, List.length_append, List.length_cons, ih, row]
    omega

theorem length_flatMap_pair (pairs : List (Int32 × UInt32)) :
    (pairs.flatMap fun pair => Writer.u32 pair.1.toUInt32 ++ Writer.u32 pair.2).length =
      8 * pairs.length := by
  induction pairs with
  | nil => rfl
  | cons first rest ih =>
    have row : (Writer.u32 first.1.toUInt32 ++ Writer.u32 first.2).length = 8 := rfl
    rw [List.flatMap_cons, List.length_append, List.length_cons, ih, row]
    omega

theorem ahead_getElem {values : List UInt32} {index : Nat} {value : UInt32}
    (ahead : Ahead state (values.flatMap Writer.u32)) (found : values[index]? = some value) :
    Ahead { state with cursor := state.cursor + 4 * index } (Writer.u32 value) := by
  obtain ⟨inside, rfl⟩ := List.getElem?_eq_some_iff.mp found
  have front : ((values.take index).flatMap Writer.u32).length = 4 * index := by
    rw [length_flatMap_u32, List.length_take_of_le (Nat.le_of_lt inside)]
  rw [← List.take_append_drop index values, List.drop_eq_getElem_cons inside, List.flatMap_append,
    List.flatMap_cons, ahead_append, front] at ahead
  exact (ahead_append.mp ahead.2).1

/-- The place of the operands of a switch. -/
def operandsPlace (pc : Nat) : Nat :=
  (pc + 4) / 4 * 4

theorem alignOperands_eq : alignOperands services state =
    .ok () { state with cursor := operandsPlace state.frame.pc } :=
  rfl

/-- A switch over a range reads its default and its bounds before it picks an offset. -/
theorem tableSwitch_reads (services : Services) (state : StepState) {default low high : UInt32}
    {offsets : List UInt8} {index : Int32} {after : Frame}
    (popped : Frame.popInt state.frame = .ok index after)
    (ahead : Ahead { state with cursor := operandsPlace state.frame.pc }
      (Writer.u32 default ++ (Writer.u32 low ++ (Writer.u32 high ++ offsets)))) :
    Ahead { state with frame := after, cursor := operandsPlace state.frame.pc + 4 + 4 + 4 } offsets ∧
      tableSwitch services state = (do
        if high.toInt32 < low.toInt32 then
          fault (.switchBounds low.toInt32 high.toInt32)
        if index < low.toInt32 ∨ index > high.toInt32 then branch default.toInt32
        else
          seek ((← cursor) + 4 * (index.toInt - low.toInt32.toInt).toNat)
          branch (← readInt) : Step Unit) services
          { state with
            frame := after
            cursor := operandsPlace state.frame.pc + 4 + 4 + 4 } := by
  obtain ⟨locals, stack, rfl⟩ := Frame.stays_popInt.samePlace popped
  have ahead : Ahead { state with
      frame := { state.frame with locals, stack }
      cursor := operandsPlace state.frame.pc } _ := ahead
  obtain ⟨atDefault, ahead⟩ := ahead_append.mp ahead
  obtain ⟨atLow, ahead⟩ := ahead_append.mp ahead
  obtain ⟨atHigh, atOffsets⟩ := ahead_append.mp ahead
  refine ⟨atOffsets, ?_⟩
  exact (bind_eq_of_ok (onFrame_ok popped)).trans <| (bind_eq_of_ok alignOperands_eq).trans <|
    (bind_eq_of_ok (readInt_of_ahead atDefault)).trans <|
    (bind_eq_of_ok (readInt_of_ahead atLow)).trans <| bind_eq_of_ok (readInt_of_ahead atHigh)

/-- A switch over a range goes to the offset of the index, if it has one. -/
theorem tableSwitch_of_ahead (services : Services) (state : StepState) {default low high : UInt32} {offsets : List UInt32} {index : Int32}
    {after : Frame} (popped : Frame.popInt state.frame = .ok index after)
    (ahead : Ahead { state with cursor := operandsPlace state.frame.pc }
      (Writer.u32 default ++ (Writer.u32 low ++ (Writer.u32 high ++ offsets.flatMap Writer.u32))))
    (filled : offsets ≠ [])
    (range : high.toInt32.toInt = low.toInt32.toInt + offsets.length - 1) :
    ∃ cursor, tableSwitch services state =
      branch (if low.toInt32 ≤ index then
          (offsets[(index.toInt - low.toInt32.toInt).toNat]?.getD default).toInt32
        else default.toInt32) services { state with frame := after, cursor } := by
  obtain ⟨atOffsets, reads⟩ := tableSwitch_reads services state popped ahead
  have positive : 0 < offsets.length := List.length_pos_iff.mpr filled
  have ordered : ¬ high.toInt32 < low.toInt32 := by
    rw [Int32.lt_iff_toInt_lt]
    omega
  rw [reads, if_neg ordered]
  by_cases above : low.toInt32 ≤ index
  · rw [if_pos above]
    rw [Int32.le_iff_toInt_le] at above
    by_cases below : index ≤ high.toInt32
    · have inside : ¬ (index < low.toInt32 ∨ index > high.toInt32) := by
        rw [gt_iff_lt, Int32.lt_iff_toInt_lt, Int32.lt_iff_toInt_lt]
        rw [Int32.le_iff_toInt_le] at below
        omega
      have listed : (index.toInt - low.toInt32.toInt).toNat < offsets.length := by
        rw [Int32.le_iff_toInt_le] at below
        omega
      have found := List.getElem?_eq_getElem listed
      rw [if_neg inside, found, Option.getD_some]
      exact ⟨_, bind_eq_of_ok (readInt_of_ahead (ahead_getElem atOffsets found))⟩
    · have outside : index < low.toInt32 ∨ index > high.toInt32 := .inr (by simpa using below)
      have missing : offsets.length ≤ (index.toInt - low.toInt32.toInt).toNat := by
        rw [Int32.le_iff_toInt_le] at below
        omega
      rw [if_pos outside, List.getElem?_eq_none missing, Option.getD_none]
      exact ⟨_, rfl⟩
  · have outside : index < low.toInt32 ∨ index > high.toInt32 := .inl (by simpa using above)
    rw [if_pos outside, if_neg above]
    exact ⟨_, rfl⟩

/-- A switch whose bounds are in the wrong order fails. -/
theorem tableSwitch_of_disorder (services : Services) (state : StepState) {default low high : UInt32}
    {offsets : List UInt8} {index : Int32} {after : Frame}
    (popped : Frame.popInt state.frame = .ok index after)
    (ahead : Ahead { state with cursor := operandsPlace state.frame.pc }
      (Writer.u32 default ++ (Writer.u32 low ++ (Writer.u32 high ++ offsets))))
    (disorder : high.toInt32 < low.toInt32) :
    ∃ state', tableSwitch services state = fault (.switchBounds low.toInt32 high.toInt32) services
      state' := by
  obtain ⟨-, reads⟩ := tableSwitch_reads services state popped ahead
  rw [reads, if_pos disorder]
  exact ⟨_, rfl⟩

theorem findPair_of_ahead (services : Services) (key : Int32) {pairs : List (Int32 × UInt32)}
    (ahead : Ahead state (pairs.flatMap fun pair => Writer.u32 pair.1.toUInt32 ++ Writer.u32 pair.2)) :
    ∃ cursor, findPair key pairs.length services state =
      .ok ((pairs.find? (·.1 = key)).map (·.2.toInt32)) { state with cursor } := by
  induction pairs generalizing state with
  | nil => exact ⟨_, rfl⟩
  | cons pair rest ih =>
    obtain ⟨candidate, offset⟩ := pair
    rw [List.flatMap_cons] at ahead
    obtain ⟨both, behind⟩ := ahead_append.mp ahead
    obtain ⟨first, second⟩ := ahead_append.mp both
    have reads : findPair key (rest.length + 1) services state =
        (if candidate = key then pure (some offset.toInt32) else findPair key rest.length) services
          { state with cursor := state.cursor + 4 + 4 } := by
      have same : candidate.toUInt32.toInt32 = candidate := Int32.toInt32_toUInt32 candidate
      rw [← same]
      exact (bind_eq_of_ok (readInt_of_ahead first)).trans (bind_eq_of_ok (readInt_of_ahead second))
    rw [List.length_cons, reads]
    by_cases found : candidate = key
    · rw [if_pos found, List.find?_cons_of_pos (by simpa using found)]
      exact ⟨_, rfl⟩
    · rw [if_neg found, List.find?_cons_of_neg (by simpa using found)]
      exact ih behind

/-- A switch over pairs goes to the offset of the first pair with the key, if there is one. -/
theorem lookupSwitch_of_ahead (services : Services) (state : StepState) {default : UInt32} {pairs : List (Int32 × UInt32)} {key : Int32}
    {after : Frame} (popped : Frame.popInt state.frame = .ok key after)
    (ahead : Ahead { state with cursor := operandsPlace state.frame.pc }
      (Writer.u32 default ++ (Writer.u32 (UInt32.ofNat pairs.length) ++
        pairs.flatMap fun pair => Writer.u32 pair.1.toUInt32 ++ Writer.u32 pair.2)))
    (few : pairs.length < 2 ^ 31) :
    ∃ cursor, lookupSwitch services state =
      branch (((pairs.find? (·.1 = key)).map Prod.snd).getD default).toInt32 services
        { state with frame := after, cursor } := by
  obtain ⟨locals, stack, rfl⟩ := Frame.stays_popInt.samePlace popped
  have ahead : Ahead { state with
      frame := { state.frame with locals, stack }
      cursor := operandsPlace state.frame.pc } _ := ahead
  obtain ⟨atDefault, ahead⟩ := ahead_append.mp ahead
  obtain ⟨atCount, atPairs⟩ := ahead_append.mp ahead
  have count : (UInt32.ofNat pairs.length).toInt32.toInt = pairs.length := by
    rw [UInt32.toInt32_ofNat']
    exact Int32.toInt_ofNat_of_lt few
  have reads : lookupSwitch services state = (do
      if (UInt32.ofNat pairs.length).toInt32 < 0 then
        fault (.switchPairs (UInt32.ofNat pairs.length).toInt32)
      let found ← findPair key (UInt32.ofNat pairs.length).toInt32.toInt.toNat
      branch (found.getD default.toInt32) : Step Unit) services
        { state with
          frame := { state.frame with locals, stack }
          cursor := operandsPlace state.frame.pc + 4 + 4 } :=
    (bind_eq_of_ok (onFrame_ok popped)).trans <| (bind_eq_of_ok alignOperands_eq).trans <|
      (bind_eq_of_ok (readInt_of_ahead atDefault)).trans <| bind_eq_of_ok (readInt_of_ahead atCount)
  have positive : ¬ (UInt32.ofNat pairs.length).toInt32 < 0 := by
    rw [Int32.lt_iff_toInt_lt, count]
    simp
  obtain ⟨cursor, found⟩ := findPair_of_ahead services key atPairs
  rw [reads, if_neg positive, count, Int.toNat_natCast]
  refine ⟨cursor, (bind_eq_of_ok found).trans ?_⟩
  have inside : (pairs.find? (·.1 = key)).map (·.2.toInt32) =
      ((pairs.find? (·.1 = key)).map Prod.snd).map UInt32.toInt32 := (Option.map_map _ _ _).symm
  rw [inside, Option.getD_map]

end Step

namespace Execution

open Exec (fail)

variable {frame after : Frame} {callers : List Frame} {services : Services} {machine : Machine}
  {α : Type}

/-- Control goes on at a place of the code. -/
def goOn (place : Nat) (callers : List Frame) (frame : Frame) : Exec Progress :=
  return .running ⟨{ frame with pc := place }, callers⟩

/-- Control goes to a place of the code; the step fails if the code ends there. -/
def goTo (place : Nat) (callers : List Frame) (frame : Frame) : Exec Progress :=
  if place < frame.code.bytes.size then goOn place callers frame
  else fail (.virtualMachine (.instruction frame.site frame.pc (.branchTarget place)))

/-- An instruction takes its operands from the stack, and what they are says how control goes on. -/
def transferring (operation : FrameM α) (next : α → Frame → Exec Progress) (frame : Frame) :
    Exec Progress :=
  match operation frame with
  | .ok value after => next value after
  | .error error _ => fail error

theorem instruction_of_opcode (op : Opcode) (opcode : Opcode.ofByte? op.byte = some op)
    (holds : Holds frame.code.bytes.toList frame.pc [op.byte]) :
    Step.instruction services ⟨machine, frame, frame.pc⟩ =
      Step.execute op services ⟨machine, frame, frame.pc + 1⟩ := by
  have read : Step.readByte services ⟨machine, frame, frame.pc⟩ =
      .ok op.byte ⟨machine, frame, frame.pc + 1⟩ := Step.readByte_of_ahead holds
  unfold Step.instruction
  rw [Step.bind_eq_of_ok read, opcode]

theorem advance_of_fatal {error : Error} {machine' : Machine} {cursor : Nat}
    (ended : Step.instruction services ⟨machine, frame, frame.pc⟩ =
      .error (.fatal error) ⟨machine', after, cursor⟩) :
    advance ⟨frame, callers⟩ services machine = .error (.fatal error) machine' := by
  simp only [advance, ended]

theorem advance_of_proceeds {machine' : Machine} {cursor : Nat}
    (ended : Step.instruction services ⟨machine, frame, frame.pc⟩ =
      .ok .proceed ⟨machine', after, cursor⟩) :
    advance ⟨frame, callers⟩ services machine = goOn cursor callers after services machine' := by
  simp only [advance, ended]
  rfl

/-- An instruction that ends with a branch goes to the target of the branch. -/
theorem advance_of_branch {offset : Int32} {place cursor : Nat} (same : frame.SamePlace after)
    (target : (frame.pc : Int) + offset.toInt = place)
    (ended : Step.instruction services ⟨machine, frame, frame.pc⟩ =
      Step.proceeding (Step.branch offset) services ⟨machine, after, cursor⟩) :
    advance ⟨frame, callers⟩ services machine = goTo place callers after services machine := by
  obtain ⟨locals, stack, rfl⟩ := same
  have branches : Step.branch offset services ⟨machine, { frame with locals, stack }, cursor⟩ = _ :=
    Step.branch_of_place target
  by_cases inside : place < frame.code.bytes.size
  · rw [if_pos inside] at branches
    rw [advance_of_proceeds (ended.trans (Step.bind_eq_of_ok branches)), goTo, if_pos inside]
  · rw [if_neg inside] at branches
    rw [advance_of_fatal (ended.trans (Step.bind_eq_of_error branches)), goTo, if_neg inside]
    rfl

end Execution

/-- The labels that an item names. -/
def CodeItem.targets : CodeItem → List Label
  | .jump _ target => [target]
  | .tableswitch _ default targets => default :: targets
  | .lookupswitch default pairs => default :: pairs.map Prod.snd
  | .handler start stop target _ => [start, stop, target]
  | _ => []

/-- A frame is at an offset of a body. -/
structure Frame.At (frame : Frame) (body : CodeBody Attribute) (offset : Nat) : Prop where
  code : frame.code.bytes = body.code.toArray
  pc : frame.pc = offset

namespace CodeBuilder

open Execution (advance goOn goTo transferring)

variable {start final : CodeBuilder} {items : List CodeItem} {body : CodeBody Attribute}

/-! ## Bodies -/

/-- A body that has been assembled from items. -/
structure Assembled (start : CodeBuilder) (items : List CodeItem) (final : CodeBuilder)
    (body : CodeBody Attribute) : Prop where
  fresh : Fresh start
  emitted : items.forM CodeBuilder.item start = .ok ((), final)
  finished : final.finish = .ok body

/-- The offset of a label from an instruction, as four bytes have it. -/
def offsetTo (builder : CodeBuilder) (start : Nat) (label : Label) : UInt32 :=
  (Int32.ofInt (builder.place label - start)).toUInt32

/-- The offset of a label from an instruction, as two bytes have it. -/
def shortOffsetTo (builder : CodeBuilder) (start : Nat) (label : Label) : UInt16 :=
  (Int16.ofInt (builder.place label - start)).toUInt16

/-- The label of an index in a switch over a range that begins at a number. -/
def tableTarget (low : Int32) (default : Label) (targets : List Label) (index : Int32) : Label :=
  if low ≤ index then targets[(index.toInt - low.toInt).toNat]?.getD default else default

/-- The label of a key in a switch over pairs: the first pair with the key has it. -/
def lookupTarget (default : Label) (pairs : List (Int32 × Label)) (key : Int32) : Label :=
  ((pairs.find? (·.1 = key)).map Prod.snd).getD default

namespace Assembled

variable (assembled : Assembled start items final body)
include assembled

theorem size_le : final.code.size ≤ 0xffff := by
  obtain ⟨pieces, grows⟩ := exists_grows assembled.emitted
  exact (code_of_finish assembled.fresh grows.emits assembled.finished).2.2

theorem place_le (label : Label) : final.place label ≤ 0xffff := by
  unfold place
  cases known : final.offset? label with
  | none => exact Nat.zero_le _
  | some place =>
    have placed := placed_of_offset? assembled.fresh assembled.emitted known
    exact (placed.le assembled.emitted).trans assembled.size_le

/-- What is emitted before an item, and what is behind it. -/
theorem exists_around {item : CodeItem} {offset next : Nat}
    (placed : Placed start items item offset next) :
    ∃ front back before after, items = front ++ item :: back ∧
      front.forM CodeBuilder.item start = .ok ((), before) ∧
      CodeBuilder.item item before = .ok ((), after) ∧
      back.forM CodeBuilder.item after = .ok ((), final) ∧
      before.code.size = offset ∧ after.code.size = next := by
  obtain ⟨front, back, before, after, rfl, reached, added, here, there⟩ := placed
  obtain ⟨middle, reached', behind⟩ := forM_append_eq_ok.mp assembled.emitted
  rw [reached] at reached'
  cases reached'
  obtain ⟨between, added', behind⟩ := forM_cons_eq_ok.mp behind
  rw [added] at added'
  cases added'
  exact ⟨front, back, before, after, rfl, reached, added, behind, here, there⟩

/-- Each item is emitted somewhere. -/
theorem exists_placed {item : CodeItem} (member : item ∈ items) :
    ∃ offset next, Placed start items item offset next := by
  obtain ⟨front, back, rfl⟩ := List.append_of_mem member
  obtain ⟨before, reached, behind⟩ := forM_append_eq_ok.mp assembled.emitted
  obtain ⟨after, added, -⟩ := forM_cons_eq_ok.mp behind
  exact ⟨_, _, front, back, before, after, rfl, reached, added, rfl, rfl⟩

/-- The code holds the pieces of an item at the offset of the item, and the labels of an item are
bound. -/
theorem exists_of_placed {item : CodeItem} {offset next : Nat}
    (placed : Placed start items item offset next) :
    ∃ before after, CodeBuilder.item item before = .ok ((), after) ∧ before.code.size = offset ∧
      after.code.size = next ∧ offset ≤ 0xffff ∧
      ∀ pieces, Emits pieces before after →
        Holds body.code offset (pieces.flatMap (Piece.encode final.place)) ∧
        ∀ label origin wide, Piece.offset label origin wide ∈ pieces →
          final.offset? label = some (final.place label) ∧
          (wide = false → -0x8000 ≤ (final.place label : Int) - origin ∧
            (final.place label : Int) - origin ≤ 0x7fff) := by
  have inside := (placed.le assembled.emitted).trans assembled.size_le
  obtain ⟨front, back, before, after, -, reached, added, behind, rfl, rfl⟩ :=
    assembled.exists_around placed
  refine ⟨before, after, added, rfl, rfl, inside, ?_⟩
  intro pieces emits
  obtain ⟨holds, bound⟩ := holds_of_emits assembled.fresh reached emits behind assembled.finished
  refine ⟨holds, ?_⟩
  intro label origin wide member
  obtain ⟨place, known, range⟩ := bound label origin wide member
  have there : final.place label = place := by rw [CodeBuilder.place, known, Option.getD_some]
  rw [there]
  exact ⟨known, range⟩

theorem toInt_offsetTo {offset : Nat} (inside : offset ≤ 0xffff) (label : Label) :
    (offset : Int) + (final.offsetTo offset label).toInt32.toInt = final.place label := by
  have near := assembled.place_le label
  have exact : (final.offsetTo offset label).toInt32.toInt = (final.place label : Int) - offset := by
    rw [offsetTo, Int32.toInt32_toUInt32, Int32.toInt_ofInt]
    exact Int.bmod_eq_of_le (by simp only [Int32.size]; omega) (by simp only [Int32.size]; omega)
  rw [exact]
  omega

omit assembled in
theorem toInt_shortOffsetTo {offset : Nat} {label : Label}
    (above : -0x8000 ≤ (final.place label : Int) - offset)
    (below : (final.place label : Int) - offset ≤ 0x7fff) :
    (offset : Int) + (final.shortOffsetTo offset label).toInt16.toInt32.toInt =
      final.place label := by
  have exact : (final.shortOffsetTo offset label).toInt16.toInt32.toInt =
      (final.place label : Int) - offset := by
    rw [shortOffsetTo, Int16.toInt16_toUInt16, Int16.toInt_toInt32, Int16.toInt_ofInt]
    exact Int.bmod_eq_of_le (by simp only [Int16.size]; omega) (by simp only [Int16.size]; omega)
  rw [exact]
  omega

/-- The label of a branch is bound, no further away than two bytes can say. -/
theorem reach {byte : UInt8} {target : Label} {offset next : Nat}
    (placed : Placed start items (.jump byte target) offset next) :
    final.offset? target = some (final.place target) ∧
      -0x8000 ≤ (final.place target : Int) - offset ∧
      (final.place target : Int) - offset ≤ 0x7fff := by
  obtain ⟨before, after, added, rfl, rfl, -, known⟩ := assembled.exists_of_placed placed
  have added : emitJump byte target before = .ok ((), after) := added
  obtain ⟨op, pops, -, -, lays⟩ := lays_of_emitJump added
  obtain ⟨bound, range⟩ := (known _ lays.emits).2 target before.code.size false (by simp)
  exact ⟨bound, range rfl⟩

/-- The code of a branch: its opcode, and the offset of its label. -/
theorem exists_of_jump {byte : UInt8} {target : Label} {offset next : Nat}
    (placed : Placed start items (.jump byte target) offset next) :
    ∃ op pops value, Opcode.ofByte? byte = some op ∧ branchPops op = some pops ∧
      next = offset + 1 + 2 ∧
      (offset : Int) + value.toInt16.toInt32.toInt = final.place target ∧
      ∀ frame : Frame, frame.At body offset → ∀ services machine,
        Step.instruction services ⟨machine, frame, frame.pc⟩ =
            Step.execute op services ⟨machine, frame, frame.pc + 1⟩ ∧
          Step.Ahead ⟨machine, frame, frame.pc + 1⟩ (Writer.u16 value) := by
  obtain ⟨-, above, below⟩ := assembled.reach placed
  obtain ⟨before, after, added, rfl, rfl, -, known⟩ := assembled.exists_of_placed placed
  have added : emitJump byte target before = .ok ((), after) := added
  obtain ⟨op, pops, named, branches, lays⟩ := lays_of_emitJump added
  obtain ⟨holds, -⟩ := known _ lays.emits
  have next : after.code.size = before.code.size + 1 + 2 := by
    rw [lays.emits.size]
    simp [Piece.blank]
  have opcode : Opcode.ofByte? op.byte = some op := by rw [Opcode.byte_of_ofByte? named, named]
  refine ⟨op, pops, final.shortOffsetTo before.code.size target, named, branches, next,
    toInt_shortOffsetTo above below, ?_⟩
  intro frame place services machine
  have code : frame.code.bytes.toList = body.code := by rw [place.code]
  have shape : [Piece.byte op.byte, .offset target before.code.size false].flatMap
      (Piece.encode final.place) =
      [op.byte] ++ Writer.u16 (final.shortOffsetTo before.code.size target) := by
    simp [Piece.encode, shortOffsetTo]
  rw [shape, holds_append, ← code, ← place.pc] at holds
  obtain ⟨atOpcode, atOffset⟩ := holds
  refine ⟨Execution.instruction_of_opcode op opcode atOpcode, ?_⟩
  rw [place.pc] at atOffset ⊢
  exact atOffset

/-- A branch that is taken goes to its label, and one that is not goes on behind it. -/
theorem jump {byte : UInt8} {target : Label} {offset next : Nat}
    (placed : Placed start items (.jump byte target) offset next) :
    ∃ op, Opcode.ofByte? byte = some op ∧
      ∀ frame callers, frame.At body offset → advance ⟨frame, callers⟩ =
        transferring (Frame.decides next op) (fun taken =>
          if taken then goTo (final.place target) callers else goOn next callers) frame := by
  obtain ⟨op, pops, value, named, branches, rfl, goal, runs⟩ := assembled.exists_of_jump placed
  refine ⟨op, named, ?_⟩
  intro frame callers place
  rw [← place.pc] at goal ⊢
  funext services machine
  obtain ⟨begins, atOffset⟩ := runs frame place services machine
  unfold transferring
  cases decided : Frame.decides (frame.pc + 1 + 2) op frame with
  | ok taken after =>
    have same := (Frame.stays_decides _ op).samePlace decided
    have runs : Step.execute op services _ = _ := Step.execute_of_decides branches atOffset decided
    cases taken with
    | true => exact Execution.advance_of_branch same goal (begins.trans runs)
    | false => exact Execution.advance_of_proceeds (begins.trans runs)
  | error error after =>
    obtain ⟨_, _, fails⟩ := Step.execute_of_not_decides services branches atOffset decided
    exact Execution.advance_of_fatal (begins.trans fails)

/-- A return from a subroutine goes on where it was called. -/
theorem ret {index : UInt16} {offset next address : Nat}
    (placed : Placed start items (.ret index) offset next) {frame : Frame} (callers : List Frame)
    (place : frame.At body offset)
    (stored : frame.locals[index.toNat]? = some (.returnAddress address)) :
    advance ⟨frame, callers⟩ = goOn address callers frame := by
  obtain ⟨before, after, added, rfl, rfl, -, known⟩ := assembled.exists_of_placed placed
  have added : emitRet index before = .ok ((), after) := added
  obtain ⟨holds, -⟩ := known _ (lays_emitRet index _ _ _ added).emits
  have code : frame.code.bytes.toList = body.code := by rw [place.code]
  rw [Piece.encode_ofBytes, ← code, ← place.pc] at holds
  funext services machine
  have returns (cursor : Nat) : Step.ret index.toNat services ⟨machine, frame, cursor⟩ =
      .ok () ⟨machine, frame, address⟩ := by
    have found : Frame.getLocal index.toNat frame = .ok (.returnAddress address) frame := by
      simp only [Frame.getLocal, Bind.bind, EStateM.bind, get, getThe, MonadStateOf.get,
        EStateM.get, stored]
      rfl
    have reads : Step.onFrame (Frame.getLocal index.toNat) services ⟨machine, frame, cursor⟩ = _ :=
      Step.onFrame_ok found
    exact Step.bind_eq_of_ok reads
  unfold retBytes at holds
  split at holds
  · next short =>
    obtain ⟨atOpcode, atIndex⟩ := holds_cons.mp holds
    have atIndex : Step.Ahead ⟨machine, frame, frame.pc + 1⟩ [index.toUInt8] := atIndex
    have number : index.toUInt8.toNat = index.toNat := by
      rw [UInt16.toNat_toUInt8]
      have small := UInt16.le_iff_toNat_le.mp short
      exact Nat.mod_eq_of_lt (Nat.lt_succ_of_le small)
    have begins : Step.instruction services ⟨machine, frame, frame.pc⟩ = _ :=
      Execution.instruction_of_opcode .ret (Opcode.ofByte?_byte (by decide)) atOpcode
    rw [← number] at returns
    exact Execution.advance_of_proceeds (begins.trans (Step.bind_eq_of_ok
      ((Step.bind_eq_of_ok (Step.readByte_of_ahead atIndex)).trans (returns _))))
  · obtain ⟨atOpcode, behind⟩ := holds_cons.mp holds
    have behind : Step.Ahead ⟨machine, frame, frame.pc + 1⟩
      ([Opcode.ret.byte] ++ Writer.u16 index) := behind
    obtain ⟨atWidened, atIndex⟩ := Step.ahead_append.mp behind
    have begins : Step.instruction services ⟨machine, frame, frame.pc⟩ = _ :=
      Execution.instruction_of_opcode .wide (Opcode.ofByte?_byte (by decide)) atOpcode
    have widens : Step.wide services ⟨machine, frame, frame.pc + 1⟩ =
        .ok () ⟨machine, frame, address⟩ := by
      have named : Opcode.ofByte? Opcode.ret.byte = some .ret :=
        Opcode.ofByte?_byte (by decide)
      refine (Step.bind_eq_of_ok (Step.readByte_of_ahead atWidened)).trans
        ((Step.bind_eq_of_ok (Step.readShort_of_ahead atIndex)).trans ?_)
      rw [named]
      exact returns _
    exact Execution.advance_of_proceeds (begins.trans (Step.bind_eq_of_ok widens))

/-- The code of a switch: its opcode, and its operands where the machine looks for them. -/
theorem exists_of_switch {item : CodeItem} {op : Opcode} (operands : Nat → List Piece)
    {offset next : Nat} (placed : Placed start items item offset next)
    (opcode : Opcode.ofByte? op.byte = some op)
    (lays : ∀ before after, CodeBuilder.item item before = .ok ((), after) →
      Lays (switchPieces op before.code.size (operands before.code.size)) before after) :
    offset ≤ 0xffff ∧
      (∀ label, Piece.offset label offset true ∈ operands offset →
        final.offset? label = some (final.place label)) ∧
      ∀ frame : Frame, frame.At body offset → ∀ services machine,
        Step.instruction services ⟨machine, frame, frame.pc⟩ =
            Step.execute op services ⟨machine, frame, frame.pc + 1⟩ ∧
          Step.Ahead ⟨machine, frame, Step.operandsPlace frame.pc⟩
            ((operands offset).flatMap (Piece.encode final.place)) := by
  obtain ⟨before, after, added, rfl, rfl, inside, known⟩ := assembled.exists_of_placed placed
  obtain ⟨holds, bound⟩ := known _ (lays before after added).emits
  refine ⟨inside, ?_, ?_⟩
  · intro label member
    have within : Piece.offset label before.code.size true ∈
        switchPieces op before.code.size (operands before.code.size) :=
      List.mem_append_right _ (List.mem_append_right _ member)
    exact (bound label before.code.size true within).1
  · intro frame place services machine
    have code : frame.code.bytes.toList = body.code := by rw [place.code]
    rw [switchPieces, List.flatMap_append, List.flatMap_append, Piece.encode_ofBytes,
      Piece.encode_ofBytes, ← code, holds_append, holds_append] at holds
    obtain ⟨atOpcode, -, atOperands⟩ := holds
    have aligned : before.code.size + [op.byte].length + (fillers before.code.size).length =
        Step.operandsPlace before.code.size := by
      simp only [fillers, List.length_replicate, List.length_cons, List.length_nil,
        Step.operandsPlace]
      omega
    rw [aligned, ← place.pc] at atOperands
    rw [← place.pc] at atOpcode
    exact ⟨Execution.instruction_of_opcode op opcode atOpcode, place.pc ▸ atOperands⟩

omit assembled in
/-- A switch takes an int from the stack, and goes to the place that its operands say. -/
theorem advance_of_switch {frame : Frame} {callers : List Frame} {services : Services}
    {machine : Machine} {switch : Step Unit} {place : Int32 → Nat}
    (begins : Step.instruction services ⟨machine, frame, frame.pc⟩ =
      Step.proceeding switch services ⟨machine, frame, frame.pc + 1⟩)
    (pops : ∀ error after, Frame.popInt frame = .error error after →
      switch services ⟨machine, frame, frame.pc + 1⟩ =
        .error (.fatal error) ⟨machine, after, frame.pc + 1⟩)
    (goes : ∀ index after, Frame.popInt frame = .ok index after → ∃ offset cursor,
      switch services ⟨machine, frame, frame.pc + 1⟩ =
        Step.branch offset services ⟨machine, after, cursor⟩ ∧
      (frame.pc : Int) + offset.toInt = place index) :
    advance ⟨frame, callers⟩ services machine =
      transferring Frame.popInt (fun index => goTo (place index) callers) frame services machine := by
  unfold transferring
  cases popped : Frame.popInt frame with
  | ok index after =>
    obtain ⟨offset, cursor, ran, target⟩ := goes index after popped
    exact Execution.advance_of_branch (Frame.stays_popInt.samePlace popped) target
      (begins.trans (Step.proceeding_congr ran))
  | error error after =>
    exact Execution.advance_of_fatal
      (begins.trans (Step.bind_eq_of_error (pops error after popped)))

omit assembled in
/-- The end of a range of ints, as the assembler computes it. -/
theorem toInt_high (low : Int32) (count : Nat) :
    (low + (Int32.ofNat count - 1)).toInt = (low.toInt + count - 1).bmod (2 ^ 32) := by
  have regroup : (low.toInt + ((count : Int).bmod 4294967296 - 1)) =
      (count : Int).bmod 4294967296 + (low.toInt - 1) := by omega
  rw [Int32.toInt_add, Int32.toInt_sub, Int32.toInt_ofNat', Int32.toInt_one, Int.add_bmod_bmod]
  simp only [Int32.size, Nat.reducePow]
  rw [regroup, Int.bmod_add_bmod]
  congr 1
  omega

omit assembled in
/-- The end of a range of ints does not overflow if it is an int. -/
theorem toInt_high_of_le {low : Int32} {count : Nat} (positive : 0 < count)
    (range : low.toInt + count - 1 ≤ Int32.maxValue.toInt) :
    (low + (Int32.ofNat count - 1)).toInt = low.toInt + count - 1 := by
  have least := Int32.minValue_le_toInt low
  simp only [Int32.toInt_minValue, Int32.toInt_maxValue] at least range
  rw [toInt_high]
  exact Int.bmod_eq_of_le (by omega) (by omega)

omit assembled in
/-- A range that does not end with an int, or that is empty, seems to end before it begins, unless
the end is the greatest int by chance. -/
theorem high_lt {low : Int32} {count : Nat} (few : count < 2 ^ 31)
    (improper : Int32.maxValue.toInt < low.toInt + count - 1 ∨ count = 0 ∧ low ≠ Int32.minValue) :
    low + (Int32.ofNat count - 1) < low := by
  have least := Int32.minValue_le_toInt low
  have greatest := Int32.toInt_le low
  rw [Int32.lt_iff_toInt_lt, toInt_high]
  simp only [Int32.toInt_minValue, Int32.toInt_maxValue] at least improper greatest
  rcases improper with beyond | ⟨none, other⟩
  · have wraps : (low.toInt + count - 1 - ((2 ^ 32 : Nat) : Int) * 1).bmod (2 ^ 32) =
        low.toInt + count - 1 - ((2 ^ 32 : Nat) : Int) * 1 :=
      Int.bmod_eq_of_le (by omega) (by omega)
    rw [Int.sub_mul_bmod_self_left] at wraps
    omega
  · have above : Int32.minValue.toInt ≠ low.toInt :=
      fun same => other (Int32.toInt_inj.mp same).symm
    rw [Int32.toInt_minValue] at above
    rw [Int.bmod_eq_of_le (by omega) (by omega)]
    omega

/-- The code of a switch over a range: its default, its bounds and its offsets. -/
theorem tableSwitch_ahead {low : Int32} {default : Label} {targets : List Label} {offset next : Nat}
    (placed : Placed start items (.tableswitch low default targets) offset next)
    (frame : Frame) (place : frame.At body offset) (services : Services) (machine : Machine) :
    offset ≤ 0xffff ∧
      Step.instruction services ⟨machine, frame, frame.pc⟩ =
        Step.proceeding Step.tableSwitch services ⟨machine, frame, frame.pc + 1⟩ ∧
      Step.Ahead ⟨machine, frame, Step.operandsPlace frame.pc⟩
        (Writer.u32 (final.offsetTo offset default) ++ (Writer.u32 low.toUInt32 ++
          (Writer.u32 (low + (Int32.ofNat targets.length - 1)).toUInt32 ++
            (targets.map (final.offsetTo offset)).flatMap Writer.u32))) := by
  obtain ⟨inside, -, runs⟩ := assembled.exists_of_switch (tableOperands low default targets)
    placed (Opcode.ofByte?_byte (by decide)) fun _ _ added => lays_of_emitTableswitch added
  obtain ⟨begins, ahead⟩ := runs frame place services machine
  have shape : (tableOperands low default targets offset).flatMap (Piece.encode final.place) =
      Writer.u32 (final.offsetTo offset default) ++ (Writer.u32 low.toUInt32 ++
        (Writer.u32 (low + (Int32.ofNat targets.length - 1)).toUInt32 ++
          (targets.map (final.offsetTo offset)).flatMap Writer.u32)) := by
    simp [tableOperands, Piece.encode, offsetTo, List.flatMap_map, List.flatMap_assoc]
  rw [shape] at ahead
  exact ⟨inside, begins, ahead⟩

/-- The code of a switch over a range branches to the label of the index, or to the default. -/
theorem tableSwitch_goes {low : Int32} {default : Label} {targets : List Label} {offset next : Nat}
    (placed : Placed start items (.tableswitch low default targets) offset next)
    (filled : targets ≠ []) (range : low.toInt + targets.length - 1 ≤ Int32.maxValue.toInt)
    (frame : Frame) (place : frame.At body offset) (services : Services) (machine : Machine) :
    Step.instruction services ⟨machine, frame, frame.pc⟩ =
        Step.proceeding Step.tableSwitch services ⟨machine, frame, frame.pc + 1⟩ ∧
      ∀ index after, Frame.popInt frame = .ok index after → ∃ offset cursor,
        Step.tableSwitch services ⟨machine, frame, frame.pc + 1⟩ =
          Step.branch offset services ⟨machine, after, cursor⟩ ∧
        (frame.pc : Int) + offset.toInt = final.place (tableTarget low default targets index) := by
  obtain ⟨inside, begins, ahead⟩ :=
    assembled.tableSwitch_ahead placed frame place services machine
  have bounds : (low + (Int32.ofNat targets.length - 1)).toUInt32.toInt32.toInt =
      low.toUInt32.toInt32.toInt + (targets.map (final.offsetTo offset)).length - 1 := by
    rw [Int32.toInt32_toUInt32, Int32.toInt32_toUInt32, List.length_map]
    exact toInt_high_of_le (List.length_pos_iff.mpr filled) range
  refine ⟨begins, fun index after popped => ?_⟩
  obtain ⟨cursor, ran⟩ := Step.tableSwitch_of_ahead services ⟨machine, frame, frame.pc + 1⟩ popped
    ahead (by simpa using filled) bounds
  refine ⟨_, cursor, ran, ?_⟩
  have selected : (if low.toUInt32.toInt32 ≤ index then
      ((targets.map (final.offsetTo offset))[(index.toInt - low.toUInt32.toInt32.toInt).toNat]?.getD
        (final.offsetTo offset default)).toInt32
      else (final.offsetTo offset default).toInt32) =
      (final.offsetTo offset (tableTarget low default targets index)).toInt32 := by
    rw [Int32.toInt32_toUInt32, tableTarget, List.getElem?_map, Option.getD_map]
    split
    · rfl
    · rfl
  rw [selected, place.pc]
  exact assembled.toInt_offsetTo inside _

/-- A switch over a range that does not end with an int fails, and so does one without targets,
unless it begins with the least int. -/
theorem tableSwitch_faults {low : Int32} {default : Label} {targets : List Label} {offset next : Nat}
    (placed : Placed start items (.tableswitch low default targets) offset next)
    (improper : Int32.maxValue.toInt < low.toInt + targets.length - 1 ∨
      targets.length = 0 ∧ low ≠ Int32.minValue)
    (frame : Frame) (place : frame.At body offset) (services : Services) (machine : Machine)
    {index : Int32} {after : Frame} (popped : Frame.popInt frame = .ok index after) :
    ∃ fault state, Step.tableSwitch services ⟨machine, frame, frame.pc + 1⟩ =
      Step.fault fault services state := by
  obtain ⟨-, -, ahead⟩ := assembled.tableSwitch_ahead placed frame place services machine
  have few : targets.length < 2 ^ 31 := by
    have within := (Step.ahead_append.mp (Step.ahead_append.mp
      (Step.ahead_append.mp ahead).2).2).2.length_le
    have small := (finished_of_finish assembled.finished).size
    have code : frame.code.bytes.toList.length = body.code.length := by rw [place.code]
    rw [Step.length_flatMap_u32, List.length_map, code] at within
    omega
  have disorder : (low + (Int32.ofNat targets.length - 1)).toUInt32.toInt32 <
      low.toUInt32.toInt32 := by
    rw [Int32.toInt32_toUInt32, Int32.toInt32_toUInt32]
    exact high_lt few improper
  obtain ⟨state, faults⟩ := Step.tableSwitch_of_disorder services ⟨machine, frame, frame.pc + 1⟩
    popped ahead disorder
  exact ⟨_, state, faults⟩

/-- A switch over a range goes to the label of the index, or to the default. -/
theorem tableswitch {low : Int32} {default : Label} {targets : List Label} {offset next : Nat}
    (placed : Placed start items (.tableswitch low default targets) offset next)
    (filled : targets ≠ []) (range : low.toInt + targets.length - 1 ≤ Int32.maxValue.toInt) :
    ∀ frame callers, frame.At body offset → advance ⟨frame, callers⟩ =
      transferring Frame.popInt
        (fun index => goTo (final.place (tableTarget low default targets index)) callers) frame := by
  intro frame callers place
  funext services machine
  obtain ⟨begins, goes⟩ := assembled.tableSwitch_goes placed filled range frame place services machine
  exact advance_of_switch begins
    (fun _ _ failed => Step.bind_eq_of_error (Step.onFrame_error failed)) goes

/-- The code of a switch over pairs branches to the label of the first pair with the key, or to the
default. -/
theorem lookupSwitch_goes {default : Label} {pairs : List (Int32 × Label)} {offset next : Nat}
    (placed : Placed start items (.lookupswitch default pairs) offset next)
    (frame : Frame) (place : frame.At body offset) (services : Services) (machine : Machine) :
    Step.instruction services ⟨machine, frame, frame.pc⟩ =
        Step.proceeding Step.lookupSwitch services ⟨machine, frame, frame.pc + 1⟩ ∧
      ∀ key after, Frame.popInt frame = .ok key after → ∃ offset cursor,
        Step.lookupSwitch services ⟨machine, frame, frame.pc + 1⟩ =
          Step.branch offset services ⟨machine, after, cursor⟩ ∧
        (frame.pc : Int) + offset.toInt = final.place (lookupTarget default pairs key) := by
  obtain ⟨inside, -, runs⟩ := assembled.exists_of_switch (lookupOperands default pairs)
    placed (Opcode.ofByte?_byte (by decide)) fun _ _ added => lays_of_emitLookupswitch added
  obtain ⟨begins, ahead⟩ := runs frame place services machine
  have shape : (lookupOperands default pairs offset).flatMap (Piece.encode final.place) =
      Writer.u32 (final.offsetTo offset default) ++
        (Writer.u32 (UInt32.ofNat ((sortPairs pairs).map fun pair =>
            (pair.1, final.offsetTo offset pair.2)).length) ++
          ((sortPairs pairs).map fun pair => (pair.1, final.offsetTo offset pair.2)).flatMap
            fun pair => Writer.u32 pair.1.toUInt32 ++ Writer.u32 pair.2) := by
    have count : (sortPairs pairs).length = pairs.length := List.length_mergeSort pairs
    simp [lookupOperands, Piece.encode, offsetTo, List.flatMap_map, List.flatMap_assoc, count]
  rw [shape] at ahead
  have few : ((sortPairs pairs).map fun pair =>
      (pair.1, final.offsetTo offset pair.2)).length < 2 ^ 31 := by
    have within := (Step.ahead_append.mp (Step.ahead_append.mp ahead).2).2.length_le
    have small := (finished_of_finish assembled.finished).size
    have code : frame.code.bytes.toList.length = body.code.length := by rw [place.code]
    rw [Step.length_flatMap_pair, code] at within
    omega
  refine ⟨begins, fun key after popped => ?_⟩
  obtain ⟨cursor, ran⟩ := Step.lookupSwitch_of_ahead services ⟨machine, frame, frame.pc + 1⟩
    popped ahead few
  refine ⟨_, cursor, ran, ?_⟩
  have selected : ((((sortPairs pairs).map fun pair =>
        (pair.1, final.offsetTo offset pair.2)).find? (·.1 = key)).map Prod.snd).getD
        (final.offsetTo offset default) =
      final.offsetTo offset (lookupTarget default pairs key) := by
    rw [lookupTarget, ← find?_sortPairs, List.find?_map, Option.map_map,
      ← Option.getD_map (final.offsetTo offset), Option.map_map]
    rfl
  rw [selected, place.pc]
  exact assembled.toInt_offsetTo inside _

/-- A switch over pairs goes to the label of the first pair with the key, or to the default. -/
theorem lookupswitch {default : Label} {pairs : List (Int32 × Label)} {offset next : Nat}
    (placed : Placed start items (.lookupswitch default pairs) offset next) :
    ∀ frame callers, frame.At body offset → advance ⟨frame, callers⟩ =
      transferring Frame.popInt
        (fun key => goTo (final.place (lookupTarget default pairs key)) callers) frame := by
  intro frame callers place
  funext services machine
  obtain ⟨begins, goes⟩ := assembled.lookupSwitch_goes placed frame place services machine
  exact advance_of_switch begins
    (fun _ _ failed => Step.bind_eq_of_error (Step.onFrame_error failed)) goes

end Assembled

/-- Control goes in a body where its items say, when labels have places. -/
structure Transfers (start : CodeBuilder) (items : List CodeItem) (body : CodeBody Attribute)
    (places : Label → Nat) : Prop where
  /-- The labels that an item names are bound at their places. -/
  bound {item : CodeItem} {offset next : Nat} {label : Label}
    (placed : Placed start items item offset next) (named : label ∈ item.targets) :
    Placed start items (.bind label) (places label) (places label)
  /-- A branch that is taken goes to its label, and one that is not goes on behind it. A call of a
  subroutine pushes the place behind it. -/
  jump {byte : UInt8} {target : Label} {offset next : Nat}
    (placed : Placed start items (.jump byte target) offset next) :
    ∃ op, Opcode.ofByte? byte = some op ∧
      ∀ frame callers, frame.At body offset → advance ⟨frame, callers⟩ =
        transferring (Frame.decides next op) (fun taken =>
          if taken then goTo (places target) callers else goOn next callers) frame
  /-- A return from a subroutine goes on at the place that was pushed. -/
  ret {index : UInt16} {offset next address : Nat} {frame : Frame} {callers : List Frame}
    (placed : Placed start items (.ret index) offset next) (place : frame.At body offset)
    (stored : frame.locals[index.toNat]? = some (.returnAddress address)) :
    advance ⟨frame, callers⟩ = goOn address callers frame
  /-- A switch over a range goes to the label of the index. -/
  tableswitch {low : Int32} {default : Label} {targets : List Label} {offset next : Nat}
    (placed : Placed start items (.tableswitch low default targets) offset next)
    (filled : targets ≠ []) (range : low.toInt + targets.length - 1 ≤ Int32.maxValue.toInt) :
    ∀ frame callers, frame.At body offset → advance ⟨frame, callers⟩ =
      transferring Frame.popInt
        (fun index => goTo (places (tableTarget low default targets index)) callers) frame
  /-- A switch over pairs goes to the label of the key. -/
  lookupswitch {default : Label} {pairs : List (Int32 × Label)} {offset next : Nat}
    (placed : Placed start items (.lookupswitch default pairs) offset next) :
    ∀ frame callers, frame.At body offset → advance ⟨frame, callers⟩ =
      transferring Frame.popInt
        (fun key => goTo (places (lookupTarget default pairs key)) callers) frame
  /-- The handlers have the places of their labels, in the order of their items. -/
  handlers : body.handlers.map HandlerEntry.offsets =
    (items.flatMap CodeItem.guards).map fun guard =>
      (places guard.1, places guard.2.1, places guard.2.2)

/-- Each label that an item names is bound. -/
theorem Assembled.bound (assembled : Assembled start items final body) {item : CodeItem}
    {offset next : Nat} {label : Label} (placed : Placed start items item offset next)
    (named : label ∈ item.targets) : final.offset? label = some (final.place label) := by
  cases item with
  | jump byte target =>
    rw [List.mem_singleton.mp named]
    exact (assembled.reach placed).1
  | tableswitch low default targets =>
    obtain ⟨-, bound, -⟩ := assembled.exists_of_switch (tableOperands low default targets)
      placed (Opcode.ofByte?_byte (by decide)) fun _ _ added => lays_of_emitTableswitch added
    apply bound
    rcases List.mem_cons.mp named with rfl | named
    · simp [tableOperands]
    · simp [tableOperands, named]
  | lookupswitch default pairs =>
    obtain ⟨-, bound, -⟩ := assembled.exists_of_switch (lookupOperands default pairs)
      placed (Opcode.ofByte?_byte (by decide)) fun _ _ added => lays_of_emitLookupswitch added
    apply bound
    rcases List.mem_cons.mp named with rfl | named
    · simp [lookupOperands]
    · obtain ⟨pair, given, rfl⟩ := List.mem_map.mp named
      have sorted : pair ∈ sortPairs pairs := List.mem_mergeSort.mpr given
      apply List.mem_append_right
      apply List.mem_append_right
      exact List.mem_flatMap.mpr ⟨pair, sorted, List.mem_append_right _ List.mem_cons_self⟩
  | handler first stop target type =>
    obtain ⟨front, back, before, after, rfl, -⟩ := placed
    have bound := (handlers_of_finish assembled.fresh assembled.emitted assembled.finished).2
    exact bound (first, stop, target) (by simp [CodeItem.guards]) label named
  | _ => cases named

theorem Assembled.transfers (assembled : Assembled start items final body) :
    Transfers start items body final.place where
  bound placed named :=
    placed_of_offset? assembled.fresh assembled.emitted (assembled.bound placed named)
  jump placed := assembled.jump placed
  ret placed place stored := assembled.ret placed _ place stored
  tableswitch placed filled range := assembled.tableswitch placed filled range
  lookupswitch placed := assembled.lookupswitch placed
  handlers := (handlers_of_finish assembled.fresh assembled.emitted assembled.finished).1

/-- **In a finished body, control goes where the labels are**: to the label of a branch that is
taken, to the label that a switch has for its operand, and from a subroutine back to where it was
called; the handlers have the places of their labels. A body with a branch too far for two bytes is
not finished. -/
theorem transfers_of_finish (fresh : Fresh start)
    (emitted : items.forM CodeBuilder.item start = .ok ((), final)) :
    (∀ body, final.finish = .ok body → ∃ places, Transfers start items body places) ∧
      ∀ byte target offset next place, Placed start items (.jump byte target) offset next →
        Placed start items (.bind target) place place →
        (place : Int) - offset < -0x8000 ∨ 0x7fff < (place : Int) - offset →
        ∃ fault, final.finish = .error fault := by
  constructor
  · intro body finished
    exact ⟨final.place, Assembled.transfers ⟨fresh, emitted, finished⟩⟩
  · intro byte target offset next place jumps binds far
    cases finished : final.finish with
    | error fault => exact ⟨fault, rfl⟩
    | ok body =>
      have assembled : Assembled start items final body := ⟨fresh, emitted, finished⟩
      obtain ⟨bound, above, below⟩ := assembled.reach jumps
      rcases binds.offset? emitted with there | nowhere
      · rw [bound] at there
        cases there
        omega
      · rw [bound] at nowhere
        cases nowhere

/-- Counts a local variable down to zero. -/
def countdown : List CodeItem :=
  [.bind 0, .load .int 0, .jump (Opcode.ifInt .eq).byte 1, .iinc 0 (-1), .jump Opcode.goto.byte 0,
    .bind 1, .plain Opcode.returnVoid.byte]

/-- A body of a method with an int, before anything is emitted, with two labels. -/
def twoLabels : CodeBuilder where
  pool := {}
  labels := #[{}, {}]
  maxLocals := 1

theorem fresh_twoLabels : Fresh twoLabels where
  code := rfl
  fixups := rfl
  handlers := rfl
  unbound
    | 0 | 1 | _ + 2 => rfl

theorem transfers_of_finish_countdown : ∃ final body places,
    countdown.forM CodeBuilder.item twoLabels = .ok ((), final) ∧ final.finish = .ok body ∧
      Transfers twoLabels countdown body places := by
  have whole : ((countdown.forM CodeBuilder.item twoLabels).toOption.map
      fun ended => ended.2.finish.isOk) = some true := by
    decide +kernel
  cases emitted : countdown.forM CodeBuilder.item twoLabels with
  | error fault =>
    rw [emitted] at whole
    cases whole
  | ok ended =>
    obtain ⟨⟨⟩, final⟩ := ended
    rw [emitted] at whole
    cases finished : final.finish with
    | error fault => simp [Except.toOption, finished, Except.isOk, Except.toBool] at whole
    | ok body =>
      obtain ⟨places, transfers⟩ := (transfers_of_finish fresh_twoLabels emitted).1 body finished
      exact ⟨final, body, places, rfl, finished, transfers⟩

end CodeBuilder

end JavaMachine
