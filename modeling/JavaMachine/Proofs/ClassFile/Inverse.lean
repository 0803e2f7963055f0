import JavaMachine.ClassFile.Reader
import JavaMachine.ClassFile.Writer
import Mathlib

/-! # Readers that invert writers

A reader inverts a writer if it accepts exactly the written forms of the valid items, gives back the
item that was written, and leaves whatever follows. Numbers, runs of bytes and counted lists are the
blocks of which every part of a class file is built. -/

namespace JavaMachine.Reader

variable {α β : Type}

/-- The reader accepts exactly the written forms of the valid items and leaves what follows. -/
def Inverts (reader : Reader α) (valid : α → Prop) (write : α → List UInt8) : Prop :=
  ∀ bytes item rest, reader bytes = .ok (item, rest) ↔ valid item ∧ bytes = write item ++ rest

theorem Inverts.eq_ok {reader : Reader α} {valid : α → Prop} {write : α → List UInt8}
    (inverts : reader.Inverts valid write) {bytes rest : List UInt8} {item : α} :
    reader bytes = .ok (item, rest) ↔ valid item ∧ bytes = write item ++ rest :=
  inverts bytes item rest

/-! ## Sequences of readings -/

theorem pure_eq_ok {item found : α} {bytes rest : List UInt8} :
    (pure item : Reader α) bytes = .ok (found, rest) ↔ item = found ∧ bytes = rest := by
  change (Except.ok (item, bytes) : Except Malformation (α × List UInt8)) = _ ↔ _
  rw [Except.ok.injEq, Prod.mk.injEq]

theorem bind_eq_ok {reader : Reader α} {next : α → Reader β} {bytes rest : List UInt8}
    {item : β} :
    (reader >>= next) bytes = .ok (item, rest) ↔
      ∃ first middle, reader bytes = .ok (first, middle) ∧
        next first middle = .ok (item, rest) := by
  change (reader bytes >>= fun found => next found.1 found.2) = _ ↔ _
  cases reader bytes with
  | error problem => simp [bind, Except.bind]
  | ok found =>
    simp only [bind, Except.bind, Except.ok.injEq]
    constructor
    · intro read
      exact ⟨found.1, found.2, rfl, read⟩
    · rintro ⟨first, middle, rfl, read⟩
      exact read

theorem throw_ne_ok {problem : Malformation} {bytes rest : List UInt8} {item : α} :
    (throw problem : Reader α) bytes ≠ .ok (item, rest) := by
  intro read
  cases read

/-! ## Numbers -/

/-- Bytes are the same if their bits are. -/
private theorem eq_of_bits {a b : UInt8}
    (bits : ∀ i (inside : i < 8), a.toBitVec[i] = b.toBitVec[i]) : a = b :=
  UInt8.toBitVec_inj.mp (BitVec.eq_of_getElem_eq bits)

private theorem u16_join (a b : UInt8) :
    Writer.u16 (a.toUInt16 <<< 8 ||| b.toUInt16) = [a, b] := by
  simp only [Writer.u16, List.cons.injEq, and_true]
  refine ⟨?_, ?_⟩ <;> refine eq_of_bits fun i inside => ?_
  all_goals simp
  all_goals grind

private theorem u16_split (value : UInt16) :
    (value >>> 8).toUInt8.toUInt16 <<< 8 ||| value.toUInt8.toUInt16 = value := by
  apply UInt16.toBitVec_inj.mp
  ext i inside
  simp [-UInt16.toUInt16_toUInt8]
  grind

private theorem u32_join (a b c d : UInt8) :
    Writer.u32 (a.toUInt32 <<< 24 ||| b.toUInt32 <<< 16 ||| c.toUInt32 <<< 8 ||| d.toUInt32)
      = [a, b, c, d] := by
  simp only [Writer.u32, List.cons.injEq, and_true]
  refine ⟨?_, ?_, ?_, ?_⟩ <;> refine eq_of_bits fun i inside => ?_
  all_goals simp
  all_goals grind

private theorem u32_split (value : UInt32) :
    (value >>> 24).toUInt8.toUInt32 <<< 24 ||| (value >>> 16).toUInt8.toUInt32 <<< 16
      ||| (value >>> 8).toUInt8.toUInt32 <<< 8 ||| value.toUInt8.toUInt32 = value := by
  apply UInt32.toBitVec_inj.mp
  ext i inside
  simp [-UInt32.toUInt32_toUInt8]
  grind

private theorem u64_join (a b c d e f g h : UInt8) :
    Writer.u64 (a.toUInt64 <<< 56 ||| b.toUInt64 <<< 48 ||| c.toUInt64 <<< 40
      ||| d.toUInt64 <<< 32 ||| e.toUInt64 <<< 24 ||| f.toUInt64 <<< 16 ||| g.toUInt64 <<< 8
      ||| h.toUInt64) = [a, b, c, d, e, f, g, h] := by
  simp only [Writer.u64, List.cons.injEq, and_true]
  refine ⟨?_, ?_, ?_, ?_, ?_, ?_, ?_, ?_⟩ <;> refine eq_of_bits fun i inside => ?_
  all_goals simp
  all_goals grind

private theorem u64_split (value : UInt64) :
    (value >>> 56).toUInt8.toUInt64 <<< 56 ||| (value >>> 48).toUInt8.toUInt64 <<< 48
      ||| (value >>> 40).toUInt8.toUInt64 <<< 40 ||| (value >>> 32).toUInt8.toUInt64 <<< 32
      ||| (value >>> 24).toUInt8.toUInt64 <<< 24 ||| (value >>> 16).toUInt8.toUInt64 <<< 16
      ||| (value >>> 8).toUInt8.toUInt64 <<< 8 ||| value.toUInt8.toUInt64 = value := by
  apply UInt64.toBitVec_inj.mp
  ext i inside
  simp [-UInt64.toUInt64_toUInt8]
  grind

theorem u8_eq_ok {bytes rest : List UInt8} {value : UInt8} :
    u8 bytes = .ok (value, rest) ↔ bytes = value :: rest := by
  cases bytes with
  | nil => simp [u8, fail]
  | cons byte bytes => simp [u8]

theorem u16_eq_ok {bytes rest : List UInt8} {value : UInt16} :
    u16 bytes = .ok (value, rest) ↔ bytes = Writer.u16 value ++ rest := by
  constructor
  · intro read
    unfold u16 at read
    split at read
    · next a b bytes =>
      obtain ⟨rfl, rfl⟩ := Prod.mk.inj (Except.ok.inj read)
      rw [u16_join]
      rfl
    · cases read
  · rintro rfl
    exact congrArg (fun found => Except.ok (found, rest)) (u16_split value)

theorem u32_eq_ok {bytes rest : List UInt8} {value : UInt32} :
    u32 bytes = .ok (value, rest) ↔ bytes = Writer.u32 value ++ rest := by
  constructor
  · intro read
    unfold u32 at read
    split at read
    · next a b c d bytes =>
      obtain ⟨rfl, rfl⟩ := Prod.mk.inj (Except.ok.inj read)
      rw [u32_join]
      rfl
    · cases read
  · rintro rfl
    exact congrArg (fun found => Except.ok (found, rest)) (u32_split value)

theorem u64_eq_ok {bytes rest : List UInt8} {value : UInt64} :
    u64 bytes = .ok (value, rest) ↔ bytes = Writer.u64 value ++ rest := by
  constructor
  · intro read
    unfold u64 at read
    split at read
    · next a b c d e f g h bytes =>
      obtain ⟨rfl, rfl⟩ := Prod.mk.inj (Except.ok.inj read)
      rw [u64_join]
      rfl
    · cases read
  · rintro rfl
    exact congrArg (fun found => Except.ok (found, rest)) (u64_split value)

theorem u16_inverts : u16.Inverts (fun _ => True) Writer.u16 := fun _ _ _ => by
  rw [u16_eq_ok, true_and]

/-! ## Runs of bytes and lists -/

/-- A number that a count reads back as the length of a list is that length, which fits. -/
theorem toNat_eq_length_u16 {count : UInt16} {items : List α} :
    count.toNat = items.length ↔
      items.length < 2 ^ 16 ∧ count = UInt16.ofNat items.length := by
  constructor
  · intro same
    refine ⟨same ▸ count.toNat_lt, ?_⟩
    rw [← same, UInt16.ofNat_toNat]
  · rintro ⟨fits, rfl⟩
    exact UInt16.toNat_ofNat_of_lt' fits

theorem toNat_eq_length_u32 {count : UInt32} {items : List α} :
    count.toNat = items.length ↔
      items.length < 2 ^ 32 ∧ count = UInt32.ofNat items.length := by
  constructor
  · intro same
    refine ⟨same ▸ count.toNat_lt, ?_⟩
    rw [← same, UInt32.ofNat_toNat]
  · rintro ⟨fits, rfl⟩
    exact UInt32.toNat_ofNat_of_lt' fits

theorem take_eq_ok {size : Nat} {bytes taken rest : List UInt8} :
    take size bytes = .ok (taken, rest) ↔ size = taken.length ∧ bytes = taken ++ rest := by
  constructor
  · intro read
    unfold take at read
    dsimp only at read
    split at read
    · next enough =>
      obtain ⟨rfl, rfl⟩ := Prod.mk.inj (Except.ok.inj read)
      exact ⟨enough.symm, (List.take_append_drop size bytes).symm⟩
    · cases read
  · rintro ⟨rfl, rfl⟩
    simp [take]

theorem atEnd_eq_ok {bytes rest : List UInt8} {mark : Unit} :
    atEnd bytes = .ok (mark, rest) ↔ bytes = [] ∧ rest = [] := by
  cases bytes with
  | nil => simp [atEnd, eq_comm]
  | cons byte bytes => simp [atEnd, fail]

/-- A run of bytes behind its length. -/
theorem sized_inverts :
    (do take (← u32).toNat : Reader (List UInt8)).Inverts
      (fun taken => taken.length < 2 ^ 32) Writer.sized := by
  intro bytes taken rest
  simp only [bind_eq_ok, u32_eq_ok, take_eq_ok, toNat_eq_length_u32, Writer.sized,
    List.append_assoc]
  constructor
  · rintro ⟨_, _, rfl, ⟨fits, rfl⟩, rfl⟩
    exact ⟨fits, rfl⟩
  · rintro ⟨fits, rfl⟩
    exact ⟨_, _, rfl, ⟨fits, rfl⟩, rfl⟩

theorem Inverts.times_eq_ok {reader : Reader α} {valid : α → Prop} {write : α → List UInt8}
    (inverts : reader.Inverts valid write) {count : Nat} {bytes rest : List UInt8}
    {items : List α} :
    times reader count bytes = .ok (items, rest) ↔
      count = items.length ∧ (∀ item ∈ items, valid item) ∧
        bytes = items.flatMap write ++ rest := by
  induction count generalizing bytes rest items with
  | zero =>
    rw [times, pure_eq_ok]
    constructor
    · rintro ⟨rfl, rfl⟩
      simp
    · rintro ⟨none, -, rfl⟩
      rw [List.eq_nil_of_length_eq_zero none.symm]
      simp
  | succ count ih =>
    simp only [times, bind_eq_ok, pure_eq_ok, inverts.eq_ok, ih]
    constructor
    · rintro ⟨first, _, ⟨good, rfl⟩, others, _, ⟨rfl, rest, rfl⟩, rfl, rfl⟩
      refine ⟨rfl, List.forall_mem_cons.mpr ⟨good, rest⟩, ?_⟩
      rw [List.flatMap_cons, List.append_assoc]
    · rintro ⟨size, good, rfl⟩
      cases items with
      | nil => cases size
      | cons first others =>
        obtain ⟨good, rest⟩ := List.forall_mem_cons.mp good
        refine ⟨first, _, ⟨good, ?_⟩, others, _, ⟨Nat.succ.inj size, rest, rfl⟩, rfl, rfl⟩
        rw [List.flatMap_cons, List.append_assoc]

theorem Inverts.counted {reader : Reader α} {valid : α → Prop} {write : α → List UInt8}
    (inverts : reader.Inverts valid write) :
    (counted reader).Inverts
      (fun items => items.length < 2 ^ 16 ∧ ∀ item ∈ items, valid item)
      (Writer.counted write) := by
  intro bytes items rest
  simp only [Reader.counted, bind_eq_ok, u16_eq_ok, inverts.times_eq_ok, toNat_eq_length_u16,
    Writer.counted, List.append_assoc]
  constructor
  · rintro ⟨_, _, rfl, ⟨fits, rfl⟩, good, rfl⟩
    exact ⟨⟨fits, good⟩, rfl⟩
  · rintro ⟨⟨fits, good⟩, rfl⟩
    exact ⟨_, _, rfl, ⟨fits, rfl⟩, good, rfl⟩

end JavaMachine.Reader
