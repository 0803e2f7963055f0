import JavaMachine.Proofs.ClassFile.RoundTrip
import Mathlib

/-! # Class files are self-delimiting

A class file says itself where it ends. What a reader takes from the front of a byte sequence it
takes whatever follows, and it does not make do with less: every cut through the bytes that it takes
leaves it at an end of input that it did not expect. This holds of numbers and of runs of bytes, and
it is kept by reading one part after the other, however many there are and whatever the first parts
say about the later ones. A reader that lets nothing follow counts what is left over.

Only the magic number is compared as a whole: a cut within it is a wrong magic number. -/

namespace JavaMachine

namespace Reader

variable {α β : Type}

/-- Input that stops within the bytes is refused: as a wrong mark if it stops within the mark, the
first `marked` of them, and as too short otherwise. -/
def RefusesCuts (marked : Nat) (reader : Reader α) (bytes : List UInt8) : Prop :=
  ∀ k, k < bytes.length → ∃ remaining,
    reader (bytes.take k) = .error (.unreadable (if k < marked then .tag else .eof) remaining)

/-- The bytes, which a mark begins, are what the reader needs for an item, no fewer and no more. -/
structure Needs (marked : Nat) (reader : Reader α) (item : α) (bytes : List UInt8) : Prop where
  marked_le : marked ≤ bytes.length
  refusesCuts : reader.RefusesCuts marked bytes
  accepts : ∀ rest, reader (bytes ++ rest) = .ok (item, rest)

/-- Whatever the reader takes is what it needs. -/
def Delimited (marked : Nat) (reader : Reader α) : Prop :=
  ∀ bytes item rest, reader bytes = .ok (item, rest) →
    ∃ taken, bytes = taken ++ rest ∧ reader.Needs marked item taken

/-- Whatever the reader accepts is what it needs, and it lets nothing follow. -/
def Closed (marked : Nat) (reader : Reader α) : Prop :=
  ∀ bytes item rest, reader bytes = .ok (item, rest) →
    reader.RefusesCuts marked bytes ∧
      ∀ extra, extra ≠ [] → reader (bytes ++ extra) = .error (.unreadable .eof extra.length)

/-! ## What comes first -/

theorem bind_of_ok {reader : Reader α} {next : α → Reader β} {bytes rest : List UInt8} {item : α}
    (found : reader bytes = .ok (item, rest)) : (reader >>= next) bytes = next item rest := by
  change (reader bytes >>= fun found => next found.1 found.2) = _
  rw [found]
  rfl

theorem bind_of_error {reader : Reader α} {next : α → Reader β} {bytes : List UInt8}
    {problem : Malformation} (failed : reader bytes = .error problem) :
    (reader >>= next) bytes = .error problem := by
  change (reader bytes >>= fun found => next found.1 found.2) = _
  rw [failed]
  rfl

/-- A cut through two parts goes through the first or through the second. -/
theorem Needs.bind_refusesCuts {marked : Nat} {reader : Reader α} {next : α → Reader β} {first : α}
    {taken others : List UInt8} (needs : reader.Needs marked first taken)
    (later : (next first).RefusesCuts 0 others) :
    (reader >>= next).RefusesCuts marked (taken ++ others) := by
  intro k inside
  by_cases early : k < taken.length
  · obtain ⟨remaining, refused⟩ := needs.refusesCuts k early
    refine ⟨remaining, bind_of_error ?_⟩
    rw [List.take_append_of_le_length early.le]
    exact refused
  · have unmarked : ¬ k < marked := by
      have := needs.marked_le
      omega
    obtain ⟨remaining, refused⟩ := later (k - taken.length) (by
      rw [List.length_append] at inside
      omega)
    refine ⟨remaining, ?_⟩
    rw [List.take_append, List.take_of_length_le (by omega), bind_of_ok (needs.accepts _), refused]
    simp only [Nat.not_lt_zero, unmarked, ↓reduceIte]

@[simp]
theorem Delimited.bind {marked : Nat} {reader : Reader α} {next : α → Reader β}
    (delimited : reader.Delimited marked) (later : ∀ first, (next first).Delimited 0) :
    (reader >>= next).Delimited marked := by
  intro bytes item rest read
  obtain ⟨first, middle, begun, ended⟩ := bind_eq_ok.mp read
  obtain ⟨taken, rfl, needs⟩ := delimited bytes first middle begun
  obtain ⟨others, rfl, wants⟩ := later first middle item rest ended
  refine ⟨taken ++ others, (List.append_assoc ..).symm, ?_, ?_, ?_⟩
  · have := needs.marked_le
    rw [List.length_append]
    omega
  · exact needs.bind_refusesCuts wants.refusesCuts
  · intro after
    rw [List.append_assoc, bind_of_ok (needs.accepts _), wants.accepts]

theorem Delimited.bind_closed {marked : Nat} {reader : Reader α} {next : α → Reader β}
    (delimited : reader.Delimited marked) (later : ∀ first, (next first).Closed 0) :
    (reader >>= next).Closed marked := by
  intro bytes item rest read
  obtain ⟨first, middle, begun, ended⟩ := bind_eq_ok.mp read
  obtain ⟨taken, rfl, needs⟩ := delimited bytes first middle begun
  obtain ⟨cuts, overlong⟩ := later first middle item rest ended
  refine ⟨needs.bind_refusesCuts cuts, ?_⟩
  intro extra more
  rw [List.append_assoc, bind_of_ok (needs.accepts _)]
  exact overlong extra more

/-! ## The parts of every file -/

/-- A reader of a fixed number of bytes. -/
theorem delimited_of_length {reader : Reader α} (size : Nat)
    (short : ∀ bytes : List UInt8, bytes.length < size →
      reader bytes = .error (.unreadable .eof bytes.length))
    (enough : ∀ bytes item rest, reader bytes = .ok (item, rest) →
      ∃ taken, taken.length = size ∧ bytes = taken ++ rest ∧
        ∀ after, reader (taken ++ after) = .ok (item, after)) :
    reader.Delimited 0 := by
  intro bytes item rest read
  obtain ⟨taken, long, split, accepts⟩ := enough bytes item rest read
  refine ⟨taken, split, Nat.zero_le _, ?_, accepts⟩
  intro k inside
  exact ⟨_, short (taken.take k) (by
    rw [List.length_take]
    omega)⟩

@[simp]
theorem u8_delimited : u8.Delimited 0 := by
  apply delimited_of_length 1
  · intro bytes short
    cases bytes with
    | nil => rfl
    | cons byte others => simp at short
  · intro bytes value rest read
    exact ⟨[value], rfl, u8_eq_ok.mp read, fun after => rfl⟩

@[simp]
theorem u16_delimited : u16.Delimited 0 := by
  apply delimited_of_length 2
  · intro bytes short
    match bytes with
    | [] | [_] => rfl
    | _ :: _ :: others => simp at short
  · intro bytes value rest read
    exact ⟨Writer.u16 value, rfl, u16_eq_ok.mp read, fun after => u16_eq_ok.mpr rfl⟩

@[simp]
theorem u32_delimited : u32.Delimited 0 := by
  apply delimited_of_length 4
  · intro bytes short
    match bytes with
    | [] | [_] | [_, _] | [_, _, _] => rfl
    | _ :: _ :: _ :: _ :: others =>
      simp only [List.length_cons] at short
      omega
  · intro bytes value rest read
    exact ⟨Writer.u32 value, rfl, u32_eq_ok.mp read, fun after => u32_eq_ok.mpr rfl⟩

@[simp]
theorem u64_delimited : u64.Delimited 0 := by
  apply delimited_of_length 8
  · intro bytes short
    match bytes with
    | [] | [_] | [_, _] | [_, _, _] | [_, _, _, _] | [_, _, _, _, _] | [_, _, _, _, _, _]
    | [_, _, _, _, _, _, _] => rfl
    | _ :: _ :: _ :: _ :: _ :: _ :: _ :: _ :: others =>
      simp only [List.length_cons] at short
      omega
  · intro bytes value rest read
    exact ⟨Writer.u64 value, rfl, u64_eq_ok.mp read, fun after => u64_eq_ok.mpr rfl⟩

@[simp]
theorem take_delimited (size : Nat) : (take size).Delimited 0 := by
  apply delimited_of_length size
  · intro bytes short
    have less : (bytes.take size).length ≠ size := by simp [short]
    simp only [take, less, ↓reduceIte, fail]
  · intro bytes taken rest read
    obtain ⟨long, split⟩ := take_eq_ok.mp read
    exact ⟨taken, long.symm, split, fun after => take_eq_ok.mpr ⟨long, rfl⟩⟩

@[simp]
theorem pure_delimited (item : α) : (pure item : Reader α).Delimited 0 := by
  intro bytes found rest read
  obtain ⟨rfl, rfl⟩ := pure_eq_ok.mp read
  refine ⟨[], rfl, Nat.zero_le _, ?_, fun after => rfl⟩
  intro k inside
  simp at inside

@[simp]
theorem Delimited.map {marked : Nat} {reader : Reader α} (delimited : reader.Delimited marked)
    (change : α → β) : (change <$> reader).Delimited marked := by
  rw [map_eq_pure_bind]
  apply delimited.bind
  intro first
  exact pure_delimited (change first)

/-- A reader that never succeeds takes nothing. -/
@[simp]
theorem fail_delimited (fault : ReadFault) : (fail fault : Reader α).Delimited 0 := by
  intro bytes item rest read
  simp [fail] at read

theorem throw_closed (problem : Malformation) (next : α → Reader β) :
    ((throw problem : Reader α) >>= next).Closed 0 := by
  intro bytes item rest read
  obtain ⟨first, middle, begun, -⟩ := bind_eq_ok.mp read
  exact absurd begun throw_ne_ok

/-- The end of the input is where nothing is left, and what is left is counted. -/
theorem atEnd_closed (item : α) : (atEnd >>= fun _ => pure item).Closed 0 := by
  intro bytes found rest read
  obtain ⟨mark, middle, ended, -⟩ := bind_eq_ok.mp read
  obtain ⟨rfl, -⟩ := atEnd_eq_ok.mp ended
  refine ⟨?_, ?_⟩
  · intro k inside
    simp at inside
  · intro extra more
    apply bind_of_error
    cases extra with
    | nil => exact absurd rfl more
    | cons byte others => rfl

@[simp]
theorem Delimited.times {reader : Reader α} (delimited : reader.Delimited 0) (count : Nat) :
    (times reader count).Delimited 0 := by
  induction count with
  | zero => exact pure_delimited []
  | succ count ih =>
    apply delimited.bind
    intro first
    exact ih.bind fun rest => pure_delimited _

@[simp]
theorem Delimited.counted {reader : Reader α} (delimited : reader.Delimited 0) :
    (counted reader).Delimited 0 :=
  u16_delimited.bind fun count => delimited.times count.toNat

end Reader

open Reader

/-! ## Constants, attributes and members -/

namespace PoolEntry

theorem read_delimited : read.Delimited 0 := by
  apply u8_delimited.bind
  intro tag
  split <;> simp

/-- A wide entry is read as any other. That there is no room for it is found at its end, so a file
that is accepted never meets this. -/
theorem readMany_delimited (room : Nat) : (readMany room).Delimited 0 := by
  induction room using Nat.strong_induction_on with
  | _ room ih =>
    cases room with
    | zero => exact pure_delimited []
    | succ room =>
      rw [readMany.eq_def]
      apply read_delimited.bind
      intro entry
      by_cases wide : entry.isWide
      · simp only [wide, ↓reduceIte]
        cases room with
        | zero => exact fail_delimited _
        | succ room => exact (ih room (by omega)).bind fun others => pure_delimited _
      · simp only [wide]
        exact (ih room (by omega)).bind fun others => pure_delimited _

theorem readPool_delimited : readPool.Delimited 0 := by
  apply u16_delimited.bind
  intro count
  by_cases none : count = 0
  · simp [none]
  · simp only [none, ↓reduceIte]
    exact (readMany_delimited _).bind fun entries => pure_delimited _

end PoolEntry

theorem Attribute.read_delimited : read.Delimited 0 := by
  apply u16_delimited.bind
  intro name
  simp

theorem MemberEntry.read_delimited : read.Delimited 0 := by
  apply u16_delimited.bind
  intro flags
  apply u16_delimited.bind
  intro name
  apply u16_delimited.bind
  intro descriptor
  simp [Attribute.read_delimited]

/-! ## Whole files -/

namespace ClassFile

/-- The magic number is the mark of a file. -/
theorem readHeader_delimited : readHeader.Delimited magic.length := by
  have version : (do return (← u16, ← u16) : Reader (UInt16 × UInt16)).Delimited 0 := by simp
  intro bytes found rest read
  obtain ⟨numbers, rfl⟩ : ∃ numbers, bytes = magic ++ numbers := by
    rw [readHeader_eq_ok] at read
    exact ⟨_, read⟩
  have behind : ∀ others, readHeader (magic ++ others) =
      (do return (← u16, ← u16) : Reader (UInt16 × UInt16)) others := by
    intro others
    have begins : magic.isPrefixOf (magic ++ others) := by simp
    simp only [readHeader, begins, ↓reduceIte, List.drop_left]
  rw [behind] at read
  obtain ⟨taken, rfl, needs⟩ := version numbers found rest read
  refine ⟨magic ++ taken, (List.append_assoc ..).symm, by simp, ?_, ?_⟩
  · intro k inside
    by_cases early : k < magic.length
    · refine ⟨k, ?_⟩
      have short : ¬ magic.isPrefixOf ((magic ++ taken).take k) := by
        intro begins
        have := (List.isPrefixOf_iff_prefix.mp begins).length_le
        rw [List.length_take] at this
        omega
      have size : ((magic ++ taken).take k).length = k := List.length_take_of_le inside.le
      simp only [readHeader, short, Bool.false_eq_true, ↓reduceIte, fail, size, early]
    · obtain ⟨remaining, refused⟩ := needs.refusesCuts (k - magic.length) (by
        rw [List.length_append] at inside
        omega)
      refine ⟨remaining, ?_⟩
      rw [List.take_append, List.take_of_length_le (by omega), behind, refused]
      simp only [Nat.not_lt_zero, early, ↓reduceIte]
  · intro after
    rw [List.append_assoc, behind, needs.accepts]

theorem readRaw_closed : readRaw.Closed magic.length := by
  apply readHeader_delimited.bind_closed
  rintro ⟨minor, major⟩
  by_cases supported : supportsVersion major
  · simp only [supported, Bool.not_true, Bool.false_eq_true, ↓reduceIte]
    apply PoolEntry.readPool_delimited.bind_closed
    intro pool
    apply u16_delimited.bind_closed
    intro flags
    apply u16_delimited.bind_closed
    intro thisClass
    apply u16_delimited.bind_closed
    intro superClass
    apply u16_delimited.counted.bind_closed
    intro interfaces
    apply MemberEntry.read_delimited.counted.bind_closed
    intro fields
    apply MemberEntry.read_delimited.counted.bind_closed
    intro methods
    apply Attribute.read_delimited.counted.bind_closed
    intro attributes
    exact atEnd_closed _
  · simp only [supported, Bool.not_false, ↓reduceIte]
    exact throw_closed _ _

/-- A file that cannot be read as it stands is refused for that alone: nothing else is looked at. -/
theorem read_of_readRaw_error {bytes : List UInt8} {problem : Malformation}
    (refused : readRaw bytes = .error problem) : read bytes = .error problem := by
  simp only [read, refused]
  rfl

/-- **Class files are self-delimiting.** If a byte sequence is accepted, none that begins it is:
within the four bytes of the magic number the magic number is wrong, and from there on the input
ends too soon. Nothing that goes on after it is accepted either: all that is left over is counted,
before any index is checked or any body decoded. -/
theorem self_delimiting {bytes : List UInt8} {file : ClassFile} (accepted : read bytes = .ok file) :
    (∀ k, k < bytes.length → ∃ remaining,
      read (bytes.take k) = .error (.unreadable (if k < 4 then .tag else .eof) remaining)) ∧
    (∀ extra, extra ≠ [] → read (bytes ++ extra) = .error (.unreadable .eof extra.length)) := by
  obtain ⟨raw, rest, begun⟩ : ∃ raw rest, readRaw bytes = .ok (raw, rest) := by
    cases found : readRaw bytes with
    | error problem =>
      rw [read_of_readRaw_error found] at accepted
      cases accepted
    | ok taken => exact ⟨taken.1, taken.2, rfl⟩
  obtain ⟨cuts, overlong⟩ := readRaw_closed bytes raw rest begun
  constructor
  · intro k inside
    obtain ⟨remaining, refused⟩ := cuts k inside
    exact ⟨remaining, read_of_readRaw_error refused⟩
  · intro extra more
    exact read_of_readRaw_error (overlong extra more)

/-- The sample is accepted, cut anywhere it is not, and nothing may follow it. -/
theorem self_delimiting_sample :
    read sampleBytes = .ok sample ∧
    (∀ k, k < sampleBytes.length → ∃ remaining,
      read (sampleBytes.take k) = .error (.unreadable (if k < 4 then .tag else .eof) remaining)) ∧
    (∀ extra, extra ≠ [] →
      read (sampleBytes ++ extra) = .error (.unreadable .eof extra.length)) := by
  have found : read sampleBytes = .ok sample := by cbv
  exact ⟨found, self_delimiting found⟩

end ClassFile

end JavaMachine
