import JavaMachine.Proofs.ClassFile.Inverse

/-! # Reading and writing constant pools

The reader of a pool inverts its writer on the pools that have a filler behind every long and every
double and nowhere else, and whose texts fit their lengths. -/

namespace JavaMachine.PoolEntry

open Reader

/-- The length of a text is written as two bytes. -/
def Fits : PoolEntry → Prop
  | utf8 bytes => bytes.length < 2 ^ 16
  | _ => True

instance : DecidablePred Fits
  | utf8 bytes => inferInstanceAs (Decidable (bytes.length < 2 ^ 16))
  | empty | integer _ | float _ | long _ | double _ | classRef _ | string _ | fieldref _ _
  | methodref _ _ | interfaceMethodref _ _ | nameAndType _ _ | methodHandle _ _ | methodType _
  | dynamic _ _ | invokeDynamic _ _ | moduleRef _ | packageRef _ => .isTrue trivial

/-- Fillers stand directly behind wide entries and nowhere else. -/
structure Spaced (entries : List PoolEntry) : Prop where
  first : entries[0]? ≠ some empty
  next : ∀ i, entries[i + 1]? = some empty ↔ ∃ entry, entries[i]? = some entry ∧ entry.isWide

/-! ## Single entries -/

private theorem tag_of_toNat {tag : UInt8} {number : Nat} (same : tag.toNat = number) :
    tag = UInt8.ofNat number := by
  rw [← same, UInt8.ofNat_toNat]

/-- What is read as an entry is the written form of an entry that is no filler. -/
theorem write_of_read {bytes rest : List UInt8} {entry : PoolEntry}
    (found : read bytes = .ok (entry, rest)) :
    (entry ≠ empty ∧ entry.Fits) ∧ bytes = entry.write ++ rest := by
  simp only [read, bind_eq_ok, u8_eq_ok] at found
  obtain ⟨tag, middle, rfl, found⟩ := found
  generalize tagged : tag.toNat = number at found
  split at found
  case h_1 tagged =>
    simp only [bind_eq_ok, u16_eq_ok, take_eq_ok, pure_eq_ok, toNat_eq_length_u16] at found
    obtain ⟨_, _, rfl, text, _, ⟨⟨fits, rfl⟩, rfl⟩, rfl, rfl⟩ := found
    rw [tag_of_toNat tagged]
    exact ⟨⟨nofun, fits⟩, by simp [write]⟩
  case h_18 => cases found
  all_goals
    rename_i tagged
    simp only [bind_eq_ok, u8_eq_ok, u16_eq_ok, u32_eq_ok, u64_eq_ok, pure_eq_ok] at found
    rw [tag_of_toNat tagged]
  case h_2 | h_3 | h_4 | h_5 | h_6 | h_7 | h_13 | h_16 | h_17 =>
    obtain ⟨_, _, rfl, rfl, rfl⟩ := found
    exact ⟨⟨nofun, trivial⟩, rfl⟩
  all_goals
    obtain ⟨_, _, rfl, _, _, rfl, rfl, rfl⟩ := found
    exact ⟨⟨nofun, trivial⟩, by simp [write]⟩

/-- The written form of an entry that is no filler is read as the entry. -/
theorem read_of_write {entry : PoolEntry} (rest : List UInt8) (present : entry ≠ empty)
    (fits : entry.Fits) : read (entry.write ++ rest) = .ok (entry, rest) := by
  cases entry with
  | empty => exact absurd rfl present
  | utf8 bytes =>
    simp only [read, write, bind_eq_ok, u8_eq_ok]
    refine ⟨1, _, rfl, ?_⟩
    simp only [UInt8.reduceToNat, bind_eq_ok, u16_eq_ok, take_eq_ok, pure_eq_ok,
      toNat_eq_length_u16]
    exact ⟨_, _, rfl, bytes, rest, ⟨⟨fits, rfl⟩, rfl⟩, rfl, rfl⟩
  | fieldref | methodref | interfaceMethodref | nameAndType | methodHandle | dynamic
  | invokeDynamic =>
    simp only [read, write, bind_eq_ok, u8_eq_ok]
    refine ⟨_, _, rfl, ?_⟩
    simp only [UInt8.reduceToNat, bind_eq_ok, u8_eq_ok, u16_eq_ok, pure_eq_ok]
    exact ⟨_, _, rfl, _, rest, rfl, rfl, rfl⟩
  | _ =>
    simp only [read, write, bind_eq_ok, u8_eq_ok]
    refine ⟨_, _, rfl, ?_⟩
    simp only [UInt8.reduceToNat, bind_eq_ok, u16_eq_ok, u32_eq_ok, u64_eq_ok, pure_eq_ok]
    exact ⟨_, rest, rfl, rfl, rfl⟩

theorem read_inverts : read.Inverts (fun entry => entry ≠ empty ∧ entry.Fits) write :=
  fun _ _ rest => ⟨write_of_read, fun ⟨⟨present, fits⟩, same⟩ =>
    same ▸ read_of_write rest present fits⟩

/-! ## Whole pools -/

theorem spaced_nil : Spaced [] :=
  ⟨nofun, fun _ => ⟨nofun, nofun⟩⟩

theorem spaced_cons_of_narrow {entry : PoolEntry} {rest : List PoolEntry}
    (narrow : ¬ entry.isWide) : Spaced (entry :: rest) ↔ entry ≠ empty ∧ Spaced rest := by
  constructor
  · intro spaced
    refine ⟨fun same => spaced.first (congrArg some same), ⟨?_, fun i => spaced.next (i + 1)⟩⟩
    intro filler
    obtain ⟨_, ⟨⟩, wide⟩ := (spaced.next 0).mp filler
    exact narrow wide
  · rintro ⟨present, spaced⟩
    refine ⟨fun same => present (Option.some.inj same), fun i => ?_⟩
    cases i with
    | zero =>
      constructor
      · intro filler
        exact absurd filler spaced.first
      · rintro ⟨_, ⟨⟩, wide⟩
        exact absurd wide narrow
    | succ i => exact spaced.next i

theorem spaced_cons_of_wide {entry : PoolEntry} {rest : List PoolEntry} (wide : entry.isWide) :
    Spaced (entry :: rest) ↔ ∃ others, rest = empty :: others ∧ Spaced others := by
  constructor
  · intro spaced
    have filler : rest[0]? = some empty := (spaced.next 0).mpr ⟨entry, rfl, wide⟩
    cases rest with
    | nil => cases filler
    | cons head others =>
      obtain rfl : head = empty := Option.some.inj filler
      refine ⟨others, rfl, ⟨?_, fun i => spaced.next (i + 2)⟩⟩
      intro second
      obtain ⟨_, same, wide⟩ := (spaced.next 1).mp second
      obtain rfl := Option.some.inj same
      cases wide
  · rintro ⟨others, rfl, spaced⟩
    refine ⟨?_, fun i => ?_⟩
    · intro same
      obtain rfl : entry = empty := Option.some.inj same
      cases wide
    · match i with
      | 0 => exact ⟨fun _ => ⟨entry, rfl, wide⟩, fun _ => rfl⟩
      | 1 =>
        constructor
        · intro filler
          exact absurd filler spaced.first
        · rintro ⟨_, ⟨⟩, wide⟩
          cases wide
      | i + 2 => exact spaced.next i

/-- So many indices are filled exactly by that many entries, spaced with fillers. -/
theorem readMany_eq_ok {room : Nat} {bytes rest : List UInt8} {entries : List PoolEntry} :
    readMany room bytes = .ok (entries, rest) ↔
      (room = entries.length ∧ Spaced entries ∧ ∀ entry ∈ entries, entry.Fits) ∧
        bytes = entries.flatMap write ++ rest := by
  induction room using readMany.induct generalizing bytes rest entries with
  | case1 =>
    rw [readMany, pure_eq_ok]
    constructor
    · rintro ⟨rfl, rfl⟩
      exact ⟨⟨rfl, spaced_nil, nofun⟩, rfl⟩
    · rintro ⟨⟨none, -⟩, rfl⟩
      rw [List.eq_nil_of_length_eq_zero none.symm]
      exact ⟨rfl, rfl⟩
  | case2 room behindWide behindNarrow =>
    rw [readMany]
    simp only [bind_eq_ok, read_inverts.eq_ok]
    constructor
    · rintro ⟨entry, _, ⟨⟨present, fits⟩, rfl⟩, found⟩
      split at found
      · next wide =>
        cases room with
        | zero => cases found
        | succ room =>
          simp only [bind_eq_ok, pure_eq_ok, behindWide] at found
          obtain ⟨others, _, ⟨⟨rfl, spaced, good⟩, rfl⟩, rfl, rfl⟩ := found
          refine ⟨⟨rfl, (spaced_cons_of_wide wide).mpr ⟨others, rfl, spaced⟩, ?_⟩, ?_⟩
          · exact List.forall_mem_cons.mpr ⟨fits, List.forall_mem_cons.mpr ⟨trivial, good⟩⟩
          · simp [write]
      · next narrow =>
        simp only [bind_eq_ok, pure_eq_ok, behindNarrow] at found
        obtain ⟨others, _, ⟨⟨rfl, spaced, good⟩, rfl⟩, rfl, rfl⟩ := found
        refine ⟨⟨rfl, (spaced_cons_of_narrow narrow).mpr ⟨present, spaced⟩, ?_⟩, ?_⟩
        · exact List.forall_mem_cons.mpr ⟨fits, good⟩
        · simp
    · rintro ⟨⟨size, spaced, good⟩, rfl⟩
      cases entries with
      | nil => cases size
      | cons entry others =>
        obtain ⟨fits, good⟩ := List.forall_mem_cons.mp good
        have size : room = others.length := Nat.succ.inj size
        refine ⟨entry, others.flatMap write ++ rest, ⟨⟨?_, fits⟩, by simp⟩, ?_⟩
        · exact fun same => spaced.first (congrArg some same)
        by_cases wide : entry.isWide
        · obtain ⟨others, rfl, behind⟩ := (spaced_cons_of_wide wide).mp spaced
          obtain ⟨-, good⟩ := List.forall_mem_cons.mp good
          cases room with
          | zero => cases size
          | succ room =>
            simp only [wide, ↓reduceIte, bind_eq_ok, pure_eq_ok, behindWide]
            exact ⟨others, rest, ⟨⟨Nat.succ.inj size, behind, good⟩, by simp [write]⟩, rfl, rfl⟩
        · obtain ⟨-, spaced⟩ := (spaced_cons_of_narrow wide).mp spaced
          simp only [wide, Bool.false_eq_true, ↓reduceIte, bind_eq_ok, pure_eq_ok, behindNarrow]
          exact ⟨others, rest, ⟨⟨size, spaced, good⟩, rfl⟩, rfl, rfl⟩

/-- A pool that can be written: its indices, zero included, can be counted in two bytes. -/
structure PoolWellFormed (pool : Array PoolEntry) : Prop where
  size : pool.size < 2 ^ 16 - 1
  spaced : Spaced pool.toList
  fits : ∀ entry ∈ pool, entry.Fits

theorem readPool_inverts : readPool.Inverts PoolWellFormed ClassFile.writePool := by
  intro bytes pool rest
  simp only [readPool, bind_eq_ok, u16_eq_ok]
  constructor
  · rintro ⟨count, _, rfl, found⟩
    split at found
    · cases found
    · next nonzero =>
      simp only [bind_eq_ok, pure_eq_ok, readMany_eq_ok] at found
      obtain ⟨entries, _, ⟨⟨size, spaced, fits⟩, rfl⟩, rfl, rfl⟩ := found
      have positive : count.toNat ≠ 0 := fun none => nonzero (UInt16.toNat_inj.mp none)
      have bound := count.toNat_lt
      refine ⟨⟨?_, spaced, ?_⟩, ?_⟩
      · rw [List.size_toArray]
        omega
      · simpa using fits
      · have same : entries.length + 1 = count.toNat := by omega
        rw [ClassFile.writePool, List.size_toArray, same, UInt16.ofNat_toNat, List.append_assoc]
  · rintro ⟨⟨size, spaced, fits⟩, rfl⟩
    have count : (UInt16.ofNat (pool.size + 1)).toNat = pool.size + 1 :=
      UInt16.toNat_ofNat_of_lt' (show pool.size + 1 < 2 ^ 16 by omega)
    have nonzero : UInt16.ofNat (pool.size + 1) ≠ 0 := by
      intro none
      rw [none] at count
      exact absurd count.symm (Nat.succ_ne_zero _)
    refine ⟨_, _, List.append_assoc .., ?_⟩
    rw [if_neg nonzero, bind_eq_ok]
    refine ⟨pool.toList, rest, readMany_eq_ok.mpr ⟨⟨?_, spaced, ?_⟩, rfl⟩, rfl⟩
    · rw [count, Array.length_toList, Nat.add_sub_cancel]
    · simpa using fits

end JavaMachine.PoolEntry
