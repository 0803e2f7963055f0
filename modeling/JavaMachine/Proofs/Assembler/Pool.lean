import JavaMachine.Assembler.Pool
import JavaMachine.Proofs.ClassFile.WellFormed

/-! # Pools under construction

A pool that is built grows at its end and keeps fillers where they belong. As long as its indices
fit two bytes, the index that is given for a constant names it, in the pool as it is then and in all
that grow from it. -/

namespace JavaMachine

namespace PoolEntry

/-- A floating-point constant. -/
def isFloat : PoolEntry → Bool
  | float _ | double _ => true
  | _ => false

theorem Spaced.append {front back : List PoolEntry} (spacedFront : Spaced front)
    (spacedBack : Spaced back) : Spaced (front ++ back) := by
  match front with
  | [] => exact spacedBack
  | entry :: rest =>
    by_cases wide : entry.isWide
    · obtain ⟨others, rfl, spaced⟩ := (spaced_cons_of_wide wide).mp spacedFront
      exact (spaced_cons_of_wide wide).mpr ⟨others ++ back, rfl, spaced.append spacedBack⟩
    · obtain ⟨present, spaced⟩ := (spaced_cons_of_narrow wide).mp spacedFront
      exact (spaced_cons_of_narrow wide).mpr ⟨present, spaced.append spacedBack⟩
termination_by front.length

/-- What a constant becomes among others, in order: the first of them that is the same, or itself. -/
def keptAmong (asked : List PoolEntry) (entry : PoolEntry) : PoolEntry :=
  (asked.find? (·.same entry)).getD entry

theorem keptAmong_cases (asked : List PoolEntry) (entry : PoolEntry) :
    entry.keptAmong asked = entry ∨ (entry.keptAmong asked).same entry := by
  unfold keptAmong
  cases search : asked.find? (·.same entry) with
  | none => exact .inl rfl
  | some found => exact .inr (by simpa using List.find?_some search)

theorem ne_empty_of_same {found entry : PoolEntry} (alike : found.same entry) : found ≠ .empty := by
  rintro rfl
  cases alike

theorem eq_of_same_utf8 {found : PoolEntry} {bytes : List UInt8} (alike : found.same (.utf8 bytes)) :
    found = .utf8 bytes := by
  cases found with
  | empty => cases alike
  | _ => exact eq_of_beq alike

end PoolEntry

namespace PoolBuilder

/-- One pool grows into another: at the end, and with fillers where they belong. -/
structure Grows (before after : PoolBuilder) : Prop where
  kept : before.entries.toList <+: after.entries.toList
  spaced : PoolEntry.Spaced before.entries.toList → PoolEntry.Spaced after.entries.toList

instance : Preorder PoolBuilder where
  le := Grows
  le_refl pool := ⟨List.prefix_rfl, id⟩
  le_trans _ _ _ near far := ⟨near.kept.trans far.kept, far.spaced ∘ near.spaced⟩

/-- The floating-point constants of a pool, in order. -/
def floats (pool : PoolBuilder) : List PoolEntry :=
  pool.entries.toList.filter PoolEntry.isFloat

/-- A pool whose indices, and their number, fit two bytes. -/
def Small (pool : PoolBuilder) : Prop :=
  pool.entries.size < 0xffff

variable {before after pool : PoolBuilder} {index : UInt16} {entry : PoolEntry}

theorem Small.of_le (small : after.Small) (grows : before ≤ after) : before.Small := by
  have size := grows.kept.length_le
  simp only [Array.length_toList] at size
  exact Nat.lt_of_le_of_lt size small

theorem entryAt?_of_le (grows : before ≤ after)
    (found : entryAt? before.entries index = some entry) :
    entryAt? after.entries index = some entry := by
  obtain ⟨added, more⟩ := grows.kept
  unfold entryAt? at found ⊢
  cases position : index.toNat with
  | zero =>
    rw [position] at found
    cases found
  | succ position' =>
    simp only [position, ← Array.getElem?_toList] at found ⊢
    rw [← more, List.getElem?_append_left (List.getElem?_eq_some_iff.mp found).1]
    exact found

theorem entryAt?_indexAt {position : Nat} (found : pool.entries[position]? = some entry)
    (small : pool.Small) : entryAt? pool.entries (indexAt position) = some entry := by
  obtain ⟨inside, -⟩ := Array.getElem?_eq_some_iff.mp found
  have fits : position + 1 < 2 ^ 16 := by
    unfold Small at small
    omega
  have number : (indexAt position).toNat = position + 1 := UInt16.toNat_ofNat_of_lt' fits
  unfold entryAt?
  rw [number]
  exact found

/-! ## Adding constants -/

/-- The entries that a constant takes. -/
def taken (entry : PoolEntry) : List PoolEntry :=
  if entry.isWide then [entry, .empty] else [entry]

theorem exists_taken_eq_cons (entry : PoolEntry) : ∃ rest, taken entry = entry :: rest := by
  unfold taken
  split
  · exact ⟨[.empty], rfl⟩
  · exact ⟨[], rfl⟩

theorem spaced_taken (present : entry ≠ .empty) : PoolEntry.Spaced (taken entry) := by
  unfold taken
  split
  · next wide =>
    exact (PoolEntry.spaced_cons_of_wide wide).mpr ⟨[], rfl, PoolEntry.spaced_nil⟩
  · next narrow =>
    exact (PoolEntry.spaced_cons_of_narrow narrow).mpr ⟨present, PoolEntry.spaced_nil⟩

/-- Adding a constant gives the index of the first one that is the same, or adds it at the end. -/
theorem add_cases (entry : PoolEntry) (pool : PoolBuilder) :
    (∃ position found, pool.entries[position]? = some found ∧
      pool.entries.toList.find? (·.same entry) = some found ∧
      add entry pool = (indexAt position, pool)) ∨
    ∃ after, pool.entries.toList.find? (·.same entry) = none ∧
      after.entries.toList = pool.entries.toList ++ taken entry ∧
      add entry pool = (indexAt pool.entries.size, after) := by
  unfold add taken
  cases search : pool.entries.findIdx? (PoolEntry.same · entry) with
  | some position =>
    obtain ⟨inside, alike, first⟩ := Array.findIdx?_eq_some_iff_getElem.mp search
    refine .inl ⟨position, pool.entries[position], Array.getElem?_eq_getElem inside, ?_, rfl⟩
    refine List.find?_eq_some_iff_getElem.mpr ⟨alike, position, inside, rfl, fun earlier before => ?_⟩
    exact Bool.not_eq_true' _ ▸ Bool.eq_false_iff.mpr (first earlier before)
  | none =>
    refine .inr ⟨_, ?_, ?_, rfl⟩
    · exact List.find?_eq_none.mpr fun found inside =>
        Bool.eq_false_iff.mp (Array.findIdx?_eq_none_iff.mp search found
          (Array.mem_toList_iff.mp inside))
    · split
      · rw [Array.toList_push, Array.toList_push, List.append_assoc]
        rfl
      · exact Array.toList_push

theorem le_add (present : entry ≠ .empty) : pool ≤ (add entry pool).2 := by
  rcases add_cases entry pool with ⟨position, found, -, -, added⟩ | ⟨after, -, entries, added⟩
  · rw [added]
  · rw [added]
    refine ⟨⟨taken entry, entries.symm⟩, fun spaced => ?_⟩
    rw [entries]
    exact spaced.append (spaced_taken present)

/-- The index that is given for a constant names what it becomes in the pool. -/
theorem entryAt?_add (entry : PoolEntry) (small : (add entry pool).2.Small) :
    entryAt? (add entry pool).2.entries (add entry pool).1 =
      some (entry.keptAmong pool.entries.toList) := by
  unfold PoolEntry.keptAmong
  rcases add_cases entry pool with
    ⟨position, found, here, search, added⟩ | ⟨after, search, entries, added⟩
  · rw [added] at small ⊢
    rw [search, Option.getD_some]
    exact entryAt?_indexAt here small
  · rw [added] at small ⊢
    rw [search, Option.getD_none]
    refine entryAt?_indexAt ?_ small
    obtain ⟨rest, first⟩ := exists_taken_eq_cons entry
    rw [← Array.getElem?_toList, entries, first, ← Array.length_toList]
    rw [List.getElem?_append_right (Nat.le_refl _), Nat.sub_self]
    rfl

theorem entryAt?_utf8 (text : String) (small : (utf8 text pool).2.Small) :
    entryAt? (utf8 text pool).2.entries (utf8 text pool).1 =
      some (.utf8 (ModifiedUtf8.encode text)) := by
  have named := entryAt?_add (.utf8 (ModifiedUtf8.encode text)) small
  rcases PoolEntry.keptAmong_cases pool.entries.toList (.utf8 (ModifiedUtf8.encode text)) with
    same | alike
  · rw [same] at named
    exact named
  · rw [PoolEntry.eq_of_same_utf8 alike] at named
    exact named

theorem namesEntry_add (present : entry ≠ .empty) (small : (add entry pool).2.Small) :
    NamesEntry (add entry pool).2.entries (add entry pool).1 := by
  refine ⟨_, entryAt?_add entry small, ?_⟩
  rcases PoolEntry.keptAmong_cases pool.entries.toList entry with same | alike
  · rw [same]
    exact present
  · exact PoolEntry.ne_empty_of_same alike

/-! ## Actions on pools -/

section Actions

variable {α β : Type}

/-- An action that makes every pool grow. -/
def Growing (action : PoolBuilding α) : Prop :=
  ∀ pool, pool ≤ (action pool).2

theorem growing_add (present : entry ≠ .empty) : Growing (add entry) := fun _ => le_add present

theorem growing_float (bits : UInt32) : Growing (float bits) := growing_add nofun

theorem growing_double (bits : UInt64) : Growing (double bits) := growing_add nofun

/-- An action that makes every pool grow, but not by floating-point constants. -/
structure Plain (action : PoolBuilding α) : Prop where
  growing : Growing action
  floats (pool : PoolBuilder) : (action pool).2.floats = pool.floats

theorem plain_pure (value : α) : Plain (pure value) := ⟨fun _ => le_refl _, fun _ => rfl⟩

theorem Plain.bind {action : PoolBuilding α} {next : α → PoolBuilding β}
    (first : Plain action) (rest : ∀ value, Plain (next value)) : Plain (action >>= next) where
  growing pool := (first.growing pool).trans ((rest _).growing _)
  floats pool := ((rest _).floats _).trans (first.floats pool)

theorem plain_add (present : entry ≠ .empty) (plain : entry.isFloat = false) : Plain (add entry) where
  growing := growing_add present
  floats pool := by
    rcases add_cases entry pool with ⟨position, found, -, -, added⟩ | ⟨after, -, entries, added⟩
    · rw [added]
    · have filler : PoolEntry.empty.isFloat = false := rfl
      have none : (taken entry).filter PoolEntry.isFloat = [] := by
        unfold taken
        split
        · simp [plain, filler]
        · simp [plain]
      rw [added, floats, entries, List.filter_append, none, List.append_nil, floats]

theorem plain_utf8 (text : String) : Plain (utf8 text) := plain_add nofun rfl

theorem plain_integer (value : Int32) : Plain (integer value) := plain_add nofun rfl

theorem plain_long (value : Int64) : Plain (long value) := plain_add nofun rfl

theorem plain_classRef (name : String) : Plain (classRef name) :=
  (plain_utf8 name).bind fun _ => plain_add nofun rfl

theorem growing_utf8 (text : String) : Growing (utf8 text) := (plain_utf8 text).growing

theorem growing_classRef (name : String) : Growing (classRef name) := (plain_classRef name).growing

theorem plain_string (text : String) : Plain (string text) :=
  (plain_utf8 text).bind fun _ => plain_add nofun rfl

theorem plain_nameAndType (name descriptor : String) : Plain (nameAndType name descriptor) :=
  (plain_utf8 name).bind fun _ => (plain_utf8 descriptor).bind fun _ => plain_add nofun rfl

theorem plain_member (owner name descriptor : String) : Plain (member owner name descriptor) :=
  (plain_classRef owner).bind fun _ => (plain_nameAndType name descriptor).bind fun _ => plain_pure _

theorem plain_fieldref (owner name descriptor : String) : Plain (fieldref owner name descriptor) :=
  (plain_member owner name descriptor).bind fun _ => plain_add nofun rfl

theorem plain_methodref (owner name descriptor : String) :
    Plain (methodref owner name descriptor) :=
  (plain_member owner name descriptor).bind fun _ => plain_add nofun rfl

theorem plain_interfaceMethodref (owner name descriptor : String) :
    Plain (interfaceMethodref owner name descriptor) :=
  (plain_member owner name descriptor).bind fun _ => plain_add nofun rfl

theorem namesEntry_classRef (name : String) (small : (classRef name pool).2.Small) :
    NamesEntry (classRef name pool).2.entries (classRef name pool).1 :=
  namesEntry_add nofun small

end Actions

end PoolBuilder

/-! ## What indices name -/

section Names

variable {before after : PoolBuilder} {index : UInt16}

theorem NamesEntry.of_le (named : NamesEntry before.entries index) (grows : before ≤ after) :
    NamesEntry after.entries index := by
  obtain ⟨entry, found, present⟩ := named
  exact ⟨entry, PoolBuilder.entryAt?_of_le grows found, present⟩

theorem NamesText.of_le (named : NamesText before.entries index) (grows : before ≤ after) :
    NamesText after.entries index := by
  obtain ⟨bytes, found⟩ := named
  exact ⟨bytes, PoolBuilder.entryAt?_of_le grows found⟩

theorem NamesCode.of_le (named : NamesCode before.entries index) (grows : before ≤ after) :
    NamesCode after.entries index :=
  PoolBuilder.entryAt?_of_le grows named

theorem NamesText.namesEntry {pool : Array PoolEntry} (named : NamesText pool index) :
    NamesEntry pool index := by
  obtain ⟨bytes, found⟩ := named
  exact ⟨_, found, nofun⟩

end Names

end JavaMachine
