import JavaMachine.Proofs.Assembler.Sharing
import JavaMachine.Proofs.Descriptor
import JavaMachine.Proofs.ModifiedUtf8
import Mathlib

/-! # Pools that are built by requests

Code that builds a class asks its pool for texts, numbers, classes, strings and members, one at a
time, and keeps the indices that it is given. A request may add several entries, each of which may
be there already, and wide entries take two indices; still every index goes on to name what was
asked for. What carries this from request to request is that the pool is orderly
(`PoolBuilder.Orderly`): each entry denotes something, no two count as the same constant, and
fillers are where they belong. -/

namespace JavaMachine

open Constant
open Float.Model (UnpackedFloat)

/-! ## Pools that grow -/

/-- An index denotes the same however the pool grows. -/
theorem Constant.Denotes.of_le {before after : PoolBuilder} {index : UInt16} {constant : Constant}
    (denotes : Denotes before.entries index constant) (grows : before ≤ after) :
    Denotes after.entries index constant := by
  have keep := @PoolBuilder.entryAt?_of_le before after
  induction denotes with
  | utf8 found decodes => exact .utf8 (keep grows found) decodes
  | integer found => exact .integer (keep grows found)
  | float found => exact .float (keep grows found)
  | long found => exact .long (keep grows found)
  | double found => exact .double (keep grows found)
  | classRef found _ named => exact .classRef (keep grows found) named
  | string found _ named => exact .string (keep grows found) named
  | moduleRef found _ named => exact .moduleRef (keep grows found) named
  | packageRef found _ named => exact .packageRef (keep grows found) named
  | nameAndType found _ _ named described =>
    exact .nameAndType (keep grows found) named described
  | fieldref found _ _ parses owned named =>
    exact .fieldref (keep grows found) owned named parses
  | methodref found _ _ parses owned named =>
    exact .methodref (keep grows found) owned named parses
  | interfaceMethodref found _ _ parses owned named =>
    exact .interfaceMethodref (keep grows found) owned named parses
  | methodHandle found _ accepted denoted =>
    exact .methodHandle (keep grows found) denoted accepted
  | methodType found _ parses described => exact .methodType (keep grows found) described parses
  | dynamic found _ parses named => exact .dynamic (keep grows found) named parses
  | invokeDynamic found _ parses named => exact .invokeDynamic (keep grows found) named parses

namespace PoolEntry

variable {found entry : PoolEntry}

theorem same_symm (alike : found.same entry) : entry.same found := by
  rcases same_cases alike with ⟨rfl, itself⟩ | ⟨a, b, rfl, rfl, equal⟩ | ⟨a, b, rfl, rfl, equal⟩
  · exact itself
  · rw [same_float]
    rw [UnpackedFloat.beq_iff_ne_notANumber_and_eq] at equal ⊢
    grind
  · rw [same_double]
    rw [UnpackedFloat.beq_iff_ne_notANumber_and_eq] at equal ⊢
    grind

theorem keptAmong_of_plain (plain : entry.isFloat = false) (asked : List PoolEntry) :
    entry.keptAmong asked = entry := by
  apply keptAmong_eq
  intro other opposite
  cases entry with
  | float bits => cases plain
  | double bits => cases plain
  | _ => cases opposite

theorem same_self_of_plain (present : entry ≠ .empty) (plain : entry.isFloat = false) :
    entry.same entry := by
  cases entry with
  | empty => exact absurd rfl present
  | float bits => cases plain
  | double bits => cases plain
  | _ => simp [same]

end PoolEntry

namespace PoolBuilder

variable {pool before after later : PoolBuilder} {index : UInt16} {entry : PoolEntry}

theorem entryAt?_of_getElem? {entries : Array PoolEntry} (nonzero : index ≠ 0)
    (here : entries[index.toNat - 1]? = some entry) : entryAt? entries index = some entry := by
  have positive : index.toNat ≠ 0 := fun zero => nonzero (UInt16.toNat_inj.mp zero)
  unfold entryAt?
  cases number : index.toNat with
  | zero => exact absurd number positive
  | succ position =>
    rw [number] at here
    exact here

theorem indexAt_toNat_sub_one (nonzero : index ≠ 0) : indexAt (index.toNat - 1) = index := by
  have positive : index.toNat ≠ 0 := fun zero => nonzero (UInt16.toNat_inj.mp zero)
  rw [indexAt, Nat.sub_add_cancel (by omega), UInt16.ofNat_toNat]

/-! ## Orderly pools -/

/-- Each entry of the pool denotes something, no two count as the same constant, and fillers are
where they belong. -/
structure Orderly (pool : PoolBuilder) : Prop where
  spaced : PoolEntry.Spaced pool.entries.toList
  denoted : ∀ index, NamesEntry pool.entries index →
    ∃ constant, Denotes pool.entries index constant
  distinct : ∀ (first second : Nat) (left right : PoolEntry), pool.entries[first]? = some left →
    pool.entries[second]? = some right → left.same right → first = second

theorem orderly_empty : Orderly {} where
  spaced := PoolEntry.spaced_nil
  denoted := by
    rintro index ⟨entry, found, -⟩
    have here := (entryAt?_eq_some found).2
    simp at here
  distinct := by
    intro first second left right here
    simp at here

/-- What stands in a pool after a constant was added at its end stood there before, or is that
constant, or a filler. -/
theorem getElem?_append_cases
    (entries : after.entries.toList = before.entries.toList ++ taken entry) {position : Nat} {found : PoolEntry} (here : after.entries[position]? = some found) :
    before.entries[position]? = some found ∨
      (position = before.entries.size ∧ found = entry) ∨ found = .empty := by
  rw [← Array.getElem?_toList, entries] at here
  by_cases early : position < before.entries.size
  · rw [List.getElem?_append_left (by simpa using early), Array.getElem?_toList] at here
    exact .inl here
  · right
    rw [List.getElem?_append_right (by simpa using early), Array.length_toList] at here
    obtain ⟨offset, far⟩ : ∃ offset, position = before.entries.size + offset :=
      ⟨_, (Nat.add_sub_of_le (Nat.le_of_not_lt early)).symm⟩
    subst far
    rw [Nat.add_sub_cancel_left] at here
    unfold taken at here
    split at here
    · match offset with
      | 0 => exact .inl ⟨rfl, (Option.some.inj here).symm⟩
      | 1 => exact .inr (Option.some.inj here).symm
      | offset + 2 => simp at here
    · match offset with
      | 0 => exact .inl ⟨rfl, (Option.some.inj here).symm⟩
      | offset + 1 => simp at here

/-- A constant that denotes something once it is added leaves the pool orderly. -/
theorem Orderly.add {constant : Constant} (orderly : pool.Orderly) (present : entry ≠ .empty)
    (denotes : Denotes (add entry pool).2.entries (add entry pool).1 constant) :
    (PoolBuilder.add entry pool).2.Orderly := by
  have grows : pool ≤ (PoolBuilder.add entry pool).2 := le_add present
  rcases add_cases entry pool with ⟨position, found, -, -, added⟩ | ⟨after, new, entries, added⟩
  · rw [added]
    exact orderly
  · rw [added] at grows denotes ⊢
    have unlike (position : Nat) (other : PoolEntry)
        (here : pool.entries[position]? = some other) : ¬ other.same entry :=
      List.find?_eq_none.mp new other
        (Array.mem_toList_iff.mpr (Array.mem_of_getElem? here))
    have filler {other : PoolEntry} : ¬ other.same .empty := by
      intro alike
      cases PoolEntry.same_symm alike
    refine ⟨grows.spaced orderly.spaced, ?_, ?_⟩
    · rintro index ⟨found, named, proper⟩
      obtain ⟨nonzero, here⟩ := entryAt?_eq_some named
      rcases getElem?_append_cases entries here with here | ⟨last, -⟩ | rfl
      · obtain ⟨constant, denotes⟩ :=
          orderly.denoted index ⟨found, entryAt?_of_getElem? nonzero here, proper⟩
        exact ⟨constant, denotes.of_le grows⟩
      · rw [← last, indexAt_toNat_sub_one nonzero] at denotes
        exact ⟨constant, denotes⟩
      · exact absurd rfl proper
    · intro first second left right here there alike
      rcases getElem?_append_cases entries here with here | ⟨rfl, rfl⟩ | rfl
      · rcases getElem?_append_cases entries there with there | ⟨rfl, rfl⟩ | rfl
        · exact orderly.distinct first second left right here there alike
        · exact absurd alike (unlike first left here)
        · exact absurd alike filler
      · rcases getElem?_append_cases entries there with there | ⟨rfl, -⟩ | rfl
        · exact absurd (PoolEntry.same_symm alike) (unlike second right there)
        · rfl
        · exact absurd alike filler
      · cases alike

/-! ## What is asked for -/

/-- An action that keeps pools orderly and gives the index of such a constant. -/
def Gives (action : PoolBuilding UInt16) (answers : Constant → Prop) : Prop :=
  ∀ pool : PoolBuilder, pool.Orderly → (action pool).2.Small →
    (action pool).2.Orderly ∧ ∃ constant, answers constant ∧
      Denotes (action pool).2.entries (action pool).1 constant

theorem Gives.imp {action : PoolBuilding UInt16} {answers others : Constant → Prop}
    (gives : Gives action answers) (weaker : ∀ constant, answers constant → others constant) :
    Gives action others := by
  intro pool orderly small
  obtain ⟨orderly, constant, answered, denotes⟩ := gives pool orderly small
  exact ⟨orderly, constant, weaker constant answered, denotes⟩

/-- An action that gives the index of a constant. -/
def Names (action : PoolBuilding UInt16) (constant : Constant) : Prop :=
  ∀ pool : PoolBuilder, (action pool).2.Small →
    Denotes (action pool).2.entries (action pool).1 constant

theorem names_of_plain {constant : Constant} (plain : entry.isFloat = false)
    (denotes : ∀ (pool : Array PoolEntry) (index : UInt16), entryAt? pool index = some entry →
      Denotes pool index constant) : Names (add entry) constant := by
  intro pool small
  have named := entryAt?_add entry small
  rw [PoolEntry.keptAmong_of_plain plain] at named
  exact denotes _ _ named

/-- A constant that is no floating-point constant is what its index names. -/
theorem gives_of_plain {constant : Constant} (present : entry ≠ .empty)
    (plain : entry.isFloat = false)
    (denotes : ∀ (pool : Array PoolEntry) (index : UInt16), entryAt? pool index = some entry →
      Denotes pool index constant) : Gives (add entry) (· = constant) := by
  intro pool orderly small
  have denoted := names_of_plain plain denotes pool small
  exact ⟨orderly.add present denoted, constant, rfl, denoted⟩

theorem names_utf8 (text : String) : Names (utf8 text) (.utf8 text) :=
  names_of_plain rfl fun _ _ found => .utf8 found (ModifiedUtf8.decode_encode text)

theorem gives_utf8 (text : String) : Gives (utf8 text) (· = .utf8 text) := by
  apply gives_of_plain (by simp) rfl
  intro pool index found
  exact .utf8 found (ModifiedUtf8.decode_encode text)

theorem gives_integer (value : Int32) : Gives (integer value) (· = .integer value) := by
  apply gives_of_plain (by simp) rfl
  intro pool index found
  exact .integer found

theorem gives_long (value : Int64) : Gives (long value) (· = .long value) := by
  apply gives_of_plain (by simp) rfl
  intro pool index found
  exact .long found

/-- The number that is asked for, or the zero of the other sign. -/
def KeepsNumber {Bits : Type} (entry : Bits → PoolEntry) (constant : Bits → Constant)
    (asked : Bits) (answer : Constant) : Prop :=
  ∃ kept, answer = constant kept ∧
    (kept = asked ∨ (entry asked).opposite? = some (entry kept))

/-- A floating-point constant is what its index names, unless it is a zero and the zero of the other
sign was there before. -/
theorem gives_number {Bits : Type} {entry : Bits → PoolEntry} {constant : Bits → Constant}
    (asked : Bits) (present : entry asked ≠ .empty)
    (opposites : ∀ other, (entry asked).opposite? = some other → ∃ kept, other = entry kept)
    (denotes : ∀ (pool : Array PoolEntry) (index : UInt16) (kept : Bits),
      entryAt? pool index = some (entry kept) → Denotes pool index (constant kept)) :
    Gives (add (entry asked)) (KeepsNumber entry constant asked) := by
  intro pool orderly small
  have named := entryAt?_add (entry asked) small
  rcases PoolEntry.keptAmong_eq_or_opposite pool.entries.toList (entry asked) with same | opposite
  · rw [same] at named
    have denoted := denotes _ _ _ named
    exact ⟨orderly.add present denoted, _, ⟨asked, rfl, .inl rfl⟩, denoted⟩
  · obtain ⟨kept, zero⟩ := opposites _ opposite
    rw [zero] at named opposite
    have denoted := denotes _ _ _ named
    exact ⟨orderly.add present denoted, _, ⟨kept, rfl, .inr opposite⟩, denoted⟩

theorem gives_float (bits : UInt32) : Gives (float bits) (KeepsNumber .float .float bits) := by
  apply gives_number bits (by simp)
  · intro other opposite
    dsimp only [PoolEntry.opposite?] at opposite
    split_ifs at opposite
    · exact ⟨_, (Option.some.inj opposite).symm⟩
    · exact ⟨_, (Option.some.inj opposite).symm⟩
  · intro pool index kept found
    exact .float found

theorem gives_double (bits : UInt64) : Gives (double bits) (KeepsNumber .double .double bits) := by
  apply gives_number bits (by simp)
  · intro other opposite
    dsimp only [PoolEntry.opposite?] at opposite
    split_ifs at opposite
    · exact ⟨_, (Option.some.inj opposite).symm⟩
    · exact ⟨_, (Option.some.inj opposite).symm⟩
  · intro pool index kept found
    exact .double found

/-- What is named by a text stands for what it stands for. -/
theorem names_named {entry : UInt16 → PoolEntry} {constant : Constant} (text : String)
    (present : ∀ name, entry name ≠ .empty) (plain : ∀ name, (entry name).isFloat = false)
    (denotes : ∀ (pool : Array PoolEntry) (index name : UInt16),
      entryAt? pool index = some (entry name) → Denotes pool name (.utf8 text) →
      Denotes pool index constant) :
    Names (do add (entry (← utf8 text))) constant := by
  intro pool small
  have grows : (utf8 text pool).2 ≤ (add (entry (utf8 text pool).1) (utf8 text pool).2).2 :=
    le_add (present _)
  have named := names_utf8 text pool (small.of_le grows)
  have found := entryAt?_add (entry (utf8 text pool).1) small
  rw [PoolEntry.keptAmong_of_plain (plain _)] at found
  exact denotes _ _ _ found (named.of_le grows)

/-- What is named by a text gives what it stands for. -/
theorem gives_named {entry : UInt16 → PoolEntry} {constant : Constant} (text : String)
    (present : ∀ name, entry name ≠ .empty) (plain : ∀ name, (entry name).isFloat = false)
    (denotes : ∀ (pool : Array PoolEntry) (index name : UInt16),
      entryAt? pool index = some (entry name) → Denotes pool name (.utf8 text) →
      Denotes pool index constant) :
    Gives (do add (entry (← utf8 text))) (· = constant) := by
  intro pool orderly small
  have grows : (utf8 text pool).2 ≤ (add (entry (utf8 text pool).1) (utf8 text pool).2).2 :=
    le_add (present _)
  obtain ⟨orderly, -⟩ := gives_utf8 text pool orderly (small.of_le grows)
  have denoted := names_named text present plain denotes pool small
  exact ⟨orderly.add (present _) denoted, constant, rfl, denoted⟩

theorem names_classRef (name : String) : Names (classRef name) (.classRef name) :=
  names_named name (by simp) (fun _ => rfl) fun _ _ _ found named => .classRef found named

theorem gives_classRef (name : String) : Gives (classRef name) (· = .classRef name) := by
  apply gives_named name (by simp) (fun _ => rfl)
  intro pool index name found named
  exact .classRef found named

theorem gives_string (text : String) : Gives (string text) (· = .string text) := by
  apply gives_named text (by simp) (fun _ => rfl)
  intro pool index name found named
  exact .string found named

/-- What two indices name that are found one after the other stands for what they stand for
together. -/
theorem names_pair {first second : PoolBuilding UInt16} {left right constant : Constant}
    {entry : UInt16 → UInt16 → PoolEntry} (namesFirst : Names first left)
    (namesSecond : Names second right) (growing : Growing second)
    (present : ∀ a b, entry a b ≠ .empty) (plain : ∀ a b, (entry a b).isFloat = false)
    (denotes : ∀ (pool : Array PoolEntry) (index a b : UInt16),
      entryAt? pool index = some (entry a b) → Denotes pool a left → Denotes pool b right →
      Denotes pool index constant) :
    Names (do
      let a ← first
      let b ← second
      add (entry a b)) constant := by
  intro pool small
  have last : (second (first pool).2).2 ≤
      (add (entry (first pool).1 (second (first pool).2).1) (second (first pool).2).2).2 :=
    le_add (present _ _)
  have middle := growing (first pool).2
  have named := namesFirst pool ((small.of_le last).of_le middle)
  have described := namesSecond _ (small.of_le last)
  have found := entryAt?_add (entry (first pool).1 (second (first pool).2).1) small
  rw [PoolEntry.keptAmong_of_plain (plain _ _)] at found
  exact denotes _ _ _ _ found (named.of_le (middle.trans last)) (described.of_le last)

/-- What two indices name that are found one after the other gives what they stand for together. -/
theorem gives_pair {first second : PoolBuilding UInt16} {left right constant : Constant}
    {entry : UInt16 → UInt16 → PoolEntry} (namesFirst : Names first left)
    (namesSecond : Names second right) (givesFirst : Gives first (· = left))
    (givesSecond : Gives second (· = right)) (growing : Growing second)
    (present : ∀ a b, entry a b ≠ .empty) (plain : ∀ a b, (entry a b).isFloat = false)
    (denotes : ∀ (pool : Array PoolEntry) (index a b : UInt16),
      entryAt? pool index = some (entry a b) → Denotes pool a left → Denotes pool b right →
      Denotes pool index constant) :
    Gives (do
      let a ← first
      let b ← second
      add (entry a b)) (· = constant) := by
  intro pool orderly small
  have last : (second (first pool).2).2 ≤
      (add (entry (first pool).1 (second (first pool).2).1) (second (first pool).2).2).2 :=
    le_add (present _ _)
  have middle := growing (first pool).2
  have denoted := names_pair namesFirst namesSecond growing present plain denotes pool small
  obtain ⟨orderly, -⟩ := givesFirst pool orderly ((small.of_le last).of_le middle)
  obtain ⟨orderly, -⟩ := givesSecond _ orderly (small.of_le last)
  exact ⟨orderly.add (present _ _) denoted, constant, rfl, denoted⟩

theorem names_nameAndType (name descriptor : String) :
    Names (nameAndType name descriptor) (.nameAndType name descriptor) :=
  names_pair (names_utf8 name) (names_utf8 descriptor) (growing_utf8 descriptor) (by simp)
    (fun _ _ => rfl) fun _ _ _ _ found named described => .nameAndType found named described

theorem gives_nameAndType (name descriptor : String) :
    Gives (nameAndType name descriptor) (· = .nameAndType name descriptor) := by
  apply gives_pair (names_utf8 name) (names_utf8 descriptor) (gives_utf8 name)
    (gives_utf8 descriptor) (growing_utf8 descriptor) (by simp) (fun _ _ => rfl)
  intro pool index first second found named described
  exact .nameAndType found named described

/-- A reference to a member stands for what it stands for. -/
theorem names_member {entry : UInt16 → UInt16 → PoolEntry} {constant : Constant}
    {owner name descriptor : String} (present : ∀ a b, entry a b ≠ .empty)
    (plain : ∀ a b, (entry a b).isFloat = false)
    (denotes : ∀ (pool : Array PoolEntry) (index a b : UInt16),
      entryAt? pool index = some (entry a b) → Denotes pool a (.classRef owner) →
      Denotes pool b (.nameAndType name descriptor) → Denotes pool index constant) :
    Names (do
      let found ← member owner name descriptor
      add (entry found.1 found.2)) constant :=
  names_pair (names_classRef owner) (names_nameAndType name descriptor)
    (plain_nameAndType name descriptor).growing present plain denotes

/-- A reference to a member gives what it stands for. -/
theorem gives_member {entry : UInt16 → UInt16 → PoolEntry} {constant : Constant}
    {owner name descriptor : String} (present : ∀ a b, entry a b ≠ .empty)
    (plain : ∀ a b, (entry a b).isFloat = false)
    (denotes : ∀ (pool : Array PoolEntry) (index a b : UInt16),
      entryAt? pool index = some (entry a b) → Denotes pool a (.classRef owner) →
      Denotes pool b (.nameAndType name descriptor) → Denotes pool index constant) :
    Gives (do
      let found ← member owner name descriptor
      add (entry found.1 found.2)) (· = constant) :=
  gives_pair (names_classRef owner) (names_nameAndType name descriptor) (gives_classRef owner)
    (gives_nameAndType name descriptor) (plain_nameAndType name descriptor).growing present plain
    denotes

theorem names_fieldref {descriptor : String} {type : FieldType} (owner name : String)
    (parses : FieldType.ofDescriptor? descriptor = some type) :
    Names (fieldref owner name descriptor) (.fieldref ⟨owner, name, type⟩) :=
  names_member (by simp) (fun _ _ => rfl) fun _ _ _ _ found owned named =>
    .fieldref found owned named parses

theorem gives_fieldref {descriptor : String} {type : FieldType} (owner name : String)
    (parses : FieldType.ofDescriptor? descriptor = some type) :
    Gives (fieldref owner name descriptor) (· = .fieldref ⟨owner, name, type⟩) := by
  apply gives_member (by simp) (fun _ _ => rfl)
  intro pool index a b found owned named
  exact .fieldref found owned named parses

theorem gives_methodref {descriptor : String} {signature : MethodDescriptor} (owner name : String)
    (parses : MethodDescriptor.ofDescriptor? descriptor = some signature) :
    Gives (methodref owner name descriptor)
      (· = .methodref ⟨owner, name, descriptor, signature⟩) := by
  apply gives_member (by simp) (fun _ _ => rfl)
  intro pool index a b found owned named
  exact .methodref found owned named parses

theorem gives_interfaceMethodref {descriptor : String} {signature : MethodDescriptor}
    (owner name : String) (parses : MethodDescriptor.ofDescriptor? descriptor = some signature) :
    Gives (interfaceMethodref owner name descriptor)
      (· = .interfaceMethodref ⟨owner, name, descriptor, signature⟩) := by
  apply gives_member (by simp) (fun _ _ => rfl)
  intro pool index a b found owned named
  exact .interfaceMethodref found owned named parses

/-! ## What is asked for again -/

/-- An action that does nothing to a pool in which it was done before, and gives what it gave. -/
def Settles {α : Type} (action : PoolBuilding α) : Prop :=
  ∀ before after : PoolBuilder, (action before).2 ≤ after →
    action after = ((action before).1, after)

theorem Settles.bind {α β : Type} {action : PoolBuilding α} {next : α → PoolBuilding β}
    (settles : Settles action) (growing : ∀ value, Growing (next value))
    (rest : ∀ value, Settles (next value)) : Settles (action >>= next) := by
  intro before after grows
  have near := growing (action before).1 (action before).2
  have again := settles before after (near.trans grows)
  calc (action >>= next) after = next (action after).1 (action after).2 := rfl
    _ = next (action before).1 after := by rw [again]
    _ = (((action >>= next) before).1, after) := rest _ _ after grows

theorem settles_pure {α : Type} (value : α) : Settles (pure value) := fun _ _ _ => rfl

theorem add_of_findIdx? {position : Nat}
    (here : pool.entries.toList.findIdx? (PoolEntry.same · entry) = some position) :
    add entry pool = (indexAt position, pool) := by
  rw [← List.findIdx?_toArray, Array.toArray_toList] at here
  unfold add
  rw [here]

/-- A constant that counts as the same as itself is found where it was found first. -/
theorem settles_add (itself : entry.same entry) : Settles (add entry) := by
  intro before after grows
  obtain ⟨more, kept⟩ := grows.kept
  cases here : before.entries.toList.findIdx? (PoolEntry.same · entry) with
  | some position =>
    have added := add_of_findIdx? here
    rw [added] at kept ⊢
    apply add_of_findIdx?
    rw [← kept, List.findIdx?_append, here]
    rfl
  | none =>
    rcases add_cases entry before with ⟨_, found, -, search, -⟩ | ⟨middle, -, entries, added⟩
    · have alike : found.same entry := by simpa using List.find?_some search
      have unlike := List.findIdx?_eq_none_iff.mp here found (List.mem_of_find?_eq_some search)
      exact absurd alike (by simp [unlike])
    · rw [added] at kept ⊢
      apply add_of_findIdx?
      obtain ⟨rest, first⟩ := exists_taken_eq_cons entry
      rw [← kept, entries, first, List.append_assoc, List.findIdx?_append, here, List.cons_append,
        List.findIdx?_cons, if_pos itself]
      simp

theorem settles_utf8 (text : String) : Settles (utf8 text) :=
  settles_add (PoolEntry.same_self_of_plain (by simp) rfl)

/-- A reference of whatever kind is found where it was found first. -/
theorem settles_reference {α : Type} {action : PoolBuilding α} {entry : α → PoolEntry}
    (settles : Settles action) (present : ∀ value, entry value ≠ .empty)
    (plain : ∀ value, (entry value).isFloat = false) :
    Settles (do add (entry (← action))) := by
  apply settles.bind
  · intro value
    exact growing_add (present value)
  · intro value
    exact settles_add (PoolEntry.same_self_of_plain (present value) (plain value))

theorem settles_classRef (name : String) : Settles (classRef name) :=
  settles_reference (settles_utf8 name) (by simp) fun _ => rfl

theorem settles_string (text : String) : Settles (string text) :=
  settles_reference (settles_utf8 text) (by simp) fun _ => rfl

theorem settles_nameAndType (name descriptor : String) :
    Settles (nameAndType name descriptor) := by
  apply (settles_utf8 name).bind
  · intro first
    exact ((plain_utf8 descriptor).bind fun _ => plain_add (by simp) rfl).growing
  · intro first
    exact settles_reference (settles_utf8 descriptor) (by simp) fun _ => rfl

theorem settles_member (owner name descriptor : String) :
    Settles (member owner name descriptor) := by
  apply (settles_classRef owner).bind
  · intro first
    exact ((plain_nameAndType name descriptor).bind fun _ => plain_pure _).growing
  · intro first
    apply (settles_nameAndType name descriptor).bind
    · intro second
      exact (plain_pure _).growing
    · intro second
      exact settles_pure _

theorem settles_fieldref (owner name descriptor : String) :
    Settles (fieldref owner name descriptor) :=
  settles_reference (settles_member owner name descriptor) (by simp) fun _ => rfl

theorem settles_methodref (owner name descriptor : String) :
    Settles (methodref owner name descriptor) :=
  settles_reference (settles_member owner name descriptor) (by simp) fun _ => rfl

theorem settles_interfaceMethodref (owner name descriptor : String) :
    Settles (interfaceMethodref owner name descriptor) :=
  settles_reference (settles_member owner name descriptor) (by simp) fun _ => rfl

end PoolBuilder

/-! ## Requests -/

/-- What a pool is asked for. -/
inductive PoolRequest where
  | utf8 (text : String)
  | integer (value : Int32)
  | float (bits : UInt32)
  | long (value : Int64)
  | double (bits : UInt64)
  | classRef (name : String)
  | string (text : String)
  | nameAndType (name descriptor : String)
  | fieldref (owner name descriptor : String)
  | methodref (owner name descriptor : String)
  | interfaceMethodref (owner name descriptor : String)

namespace PoolRequest

open PoolBuilder FloatingPoint

/-- The request is made. -/
def ask : PoolRequest → PoolBuilding UInt16
  | utf8 text => PoolBuilder.utf8 text
  | integer value => PoolBuilder.integer value
  | float bits => PoolBuilder.float bits
  | long value => PoolBuilder.long value
  | double bits => PoolBuilder.double bits
  | classRef name => PoolBuilder.classRef name
  | string text => PoolBuilder.string text
  | nameAndType name descriptor => PoolBuilder.nameAndType name descriptor
  | fieldref owner name descriptor => PoolBuilder.fieldref owner name descriptor
  | methodref owner name descriptor => PoolBuilder.methodref owner name descriptor
  | interfaceMethodref owner name descriptor =>
    PoolBuilder.interfaceMethodref owner name descriptor

/-- The descriptor, if there is one, is one of a field or of a method, as the request requires. -/
def Valid : PoolRequest → Prop
  | fieldref _ _ descriptor => (FieldType.ofDescriptor? descriptor).isSome
  | methodref _ _ descriptor | interfaceMethodref _ _ descriptor =>
    (MethodDescriptor.ofDescriptor? descriptor).isSome
  | _ => True

/-- The number that is asked for is none. -/
def IsNaN : PoolRequest → Prop
  | float bits => Single.unpack bits = .notANumber
  | double bits => Double.unpack bits = .notANumber
  | _ => False

/-- The constant is what was asked for: of that kind, with those texts and of the type or signature
that the descriptor spells, or with that number, but for the sign of a zero. -/
def Answered : PoolRequest → Constant → Prop
  | utf8 text, answer => answer = .utf8 text
  | integer value, answer => answer = .integer value
  | float bits, answer => KeepsNumber .float .float bits answer
  | long value, answer => answer = .long value
  | double bits, answer => KeepsNumber .double .double bits answer
  | classRef name, answer => answer = .classRef name
  | string text, answer => answer = .string text
  | nameAndType name descriptor, answer => answer = .nameAndType name descriptor
  | fieldref owner name descriptor, answer => ∃ type : FieldType, type.descriptor = descriptor ∧
    answer = .fieldref ⟨owner, name, type⟩
  | methodref owner name descriptor, answer => ∃ signature,
    MethodDescriptor.ofDescriptor? descriptor = some signature ∧
      answer = .methodref ⟨owner, name, descriptor, signature⟩
  | interfaceMethodref owner name descriptor, answer => ∃ signature,
    MethodDescriptor.ofDescriptor? descriptor = some signature ∧
      answer = .interfaceMethodref ⟨owner, name, descriptor, signature⟩

variable {request : PoolRequest} {requests : List PoolRequest} {before after pool : PoolBuilder}
  {index : UInt16} {indices : List UInt16}

theorem growing_ask (request : PoolRequest) : Growing request.ask := by
  cases request with
  | utf8 text => exact growing_utf8 text
  | integer value => exact (plain_integer value).growing
  | float bits => exact growing_float bits
  | long value => exact (plain_long value).growing
  | double bits => exact growing_double bits
  | classRef name => exact growing_classRef name
  | string text => exact (plain_string text).growing
  | nameAndType name descriptor => exact (plain_nameAndType name descriptor).growing
  | fieldref owner name descriptor => exact (plain_fieldref owner name descriptor).growing
  | methodref owner name descriptor => exact (plain_methodref owner name descriptor).growing
  | interfaceMethodref owner name descriptor =>
    exact (plain_interfaceMethodref owner name descriptor).growing

theorem gives_ask (valid : request.Valid) : Gives request.ask request.Answered := by
  cases request with
  | utf8 text => exact gives_utf8 text
  | integer value => exact gives_integer value
  | float bits => exact gives_float bits
  | long value => exact gives_long value
  | double bits => exact gives_double bits
  | classRef name => exact gives_classRef name
  | string text => exact gives_string text
  | nameAndType name descriptor => exact gives_nameAndType name descriptor
  | fieldref owner name descriptor =>
    obtain ⟨type, parses⟩ := Option.isSome_iff_exists.mp valid
    apply Gives.imp (gives_fieldref owner name parses)
    rintro _ rfl
    exact ⟨type, (FieldType.ofDescriptor?_eq_some_iff.mp parses).2, rfl⟩
  | methodref owner name descriptor =>
    obtain ⟨signature, parses⟩ := Option.isSome_iff_exists.mp valid
    apply Gives.imp (gives_methodref owner name parses)
    rintro _ rfl
    exact ⟨signature, parses, rfl⟩
  | interfaceMethodref owner name descriptor =>
    obtain ⟨signature, parses⟩ := Option.isSome_iff_exists.mp valid
    apply Gives.imp (gives_interfaceMethodref owner name parses)
    rintro _ rfl
    exact ⟨signature, parses, rfl⟩

/-- A number is found again, since it counts as the same as itself. -/
theorem settles_ask (number : ¬ request.IsNaN) : Settles request.ask := by
  have itself {unpacked : UnpackedFloat} (number : unpacked ≠ .notANumber) :
      unpacked.beq unpacked := by
    rw [UnpackedFloat.beq_iff_ne_notANumber_and_eq]
    exact ⟨number, number, .inl rfl⟩
  cases request with
  | utf8 text => exact settles_utf8 text
  | integer value => exact settles_add (PoolEntry.same_self_of_plain (by simp) rfl)
  | float bits =>
    apply settles_add
    rw [PoolEntry.same_float]
    exact itself number
  | long value => exact settles_add (PoolEntry.same_self_of_plain (by simp) rfl)
  | double bits =>
    apply settles_add
    rw [PoolEntry.same_double]
    exact itself number
  | classRef name => exact settles_classRef name
  | string text => exact settles_string text
  | nameAndType name descriptor => exact settles_nameAndType name descriptor
  | fieldref owner name descriptor => exact settles_fieldref owner name descriptor
  | methodref owner name descriptor => exact settles_methodref owner name descriptor
  | interfaceMethodref owner name descriptor =>
    exact settles_interfaceMethodref owner name descriptor

/-- The index denotes what was asked for, and asking again gives it again. -/
structure Served (pool : PoolBuilder) (request : PoolRequest) (index : UInt16) : Prop where
  answered : ∃ constant, request.Answered constant ∧ Denotes pool.entries index constant
  again : ¬ request.IsNaN → request.ask pool = (index, pool)

theorem growing_mapM (requests : List PoolRequest) : Growing (requests.mapM ask) := by
  induction requests with
  | nil => exact fun pool => le_refl pool
  | cons request requests ih =>
    intro pool
    rw [List.mapM_cons]
    exact (growing_ask request pool).trans (ih (request.ask pool).2)

/-- Whatever is asked for in an orderly pool leaves it orderly, and every index is that of what was
asked for, whatever was asked for later. -/
theorem served_of_mapM (requests : List PoolRequest) (valid : ∀ request ∈ requests, request.Valid)
    (orderly : before.Orderly) (small : (requests.mapM ask before).2.Small) :
    (requests.mapM ask before).2.Orderly ∧
      List.Forall₂ (Served (requests.mapM ask before).2) requests
        (requests.mapM ask before).1 := by
  induction requests generalizing before with
  | nil => exact ⟨orderly, .nil⟩
  | cons request requests ih =>
    obtain ⟨first, others⟩ := List.forall_mem_cons.mp valid
    have grows := growing_mapM requests (request.ask before).2
    rw [List.mapM_cons] at small ⊢
    obtain ⟨orderly, constant, answered, denotes⟩ :=
      gives_ask first before orderly (small.of_le grows)
    obtain ⟨orderly, served⟩ := ih others orderly small
    refine ⟨orderly, .cons ⟨⟨constant, answered, denotes.of_le grows⟩, ?_⟩ served⟩
    intro number
    exact settles_ask number before _ grows

/-- **What a pool was asked for is what its indices stand for.** Whatever is asked for, one after
the other, as long as the indices fit two bytes: the pool can be resolved; every index that was
given stands for what was asked for; the wide entries, and no others, are followed by fillers; no
two entries count as the same constant. So asking again for anything but a NaN gives the index that
was given the first time, and adds nothing. -/
theorem requests_served (requests : List PoolRequest) (indices : List UInt16) (pool : PoolBuilder)
    (valid : ∀ request ∈ requests, request.Valid)
    (asked : requests.mapM ask {} = (indices, pool)) (small : pool.entries.size < 65535) :
    (∃ constants, resolvePool pool.entries = .ok constants ∧
      List.Forall₂ (fun request index => ∃ position constant, index.toNat = position + 1 ∧
        constants[position]? = some constant ∧ request.Answered constant) requests indices) ∧
    PoolEntry.Spaced pool.entries.toList ∧
    (∀ (first second : Nat) (left right : PoolEntry), pool.entries[first]? = some left →
      pool.entries[second]? = some right → left.same right → first = second) ∧
    List.Forall₂ (fun request index => ¬ request.IsNaN → request.ask pool = (index, pool))
      requests indices := by
  obtain ⟨orderly, served⟩ := served_of_mapM requests valid orderly_empty (by rwa [asked])
  rw [asked] at orderly served
  have fits : pool.entries.size ≤ 65534 := Nat.le_of_lt_succ small
  refine ⟨?_, orderly.spaced, orderly.distinct, served.imp fun _ _ answer => answer.again⟩
  obtain ⟨-, ⟨constants, resolved, meanings⟩ | ⟨index, fault, -, first⟩⟩ :=
    resolveWithin_ends fits (Nat.lt_succ_self pool.entries.size)
      (Nat.lt_succ_self pool.entries.size)
  · refine ⟨constants, resolved, served.imp ?_⟩
    intro request index answer
    obtain ⟨constant, answered, denotes⟩ := answer.answered
    obtain ⟨entry, found, -⟩ := denotes.namesEntry
    have positive : index.toNat ≠ 0 := by
      intro zero
      exact (entryAt?_eq_some found).1 (UInt16.toNat_inj.mp zero)
    exact ⟨index.toNat - 1, constant, by omega, meanings.getElem?_eq denotes, answered⟩
  · exact absurd (resolvable_iff.mpr (orderly.denoted index first.named)) first.unresolvable

/-- A method, a wide number, both zeros and a text that the method is named by. -/
theorem requests_served_shared :
    (∀ request ∈ [methodref "F" "F" "()J", long 7, float 0, float 0x80000000, string "F"],
      request.Valid) ∧
    [methodref "F" "F" "()J", long 7, float 0, float 0x80000000, string "F"].mapM ask {} =
      ([5, 6, 8, 8, 9], ⟨#[.utf8 [70], .classRef 1, .utf8 [40, 41, 74], .nameAndType 1 3,
        .methodref 2 4, .long 7, .empty, .float 0, .string 1]⟩) ∧
    ∃ constants, resolvePool #[.utf8 [70], .classRef 1, .utf8 [40, 41, 74], .nameAndType 1 3,
      .methodref 2 4, .long 7, .empty, .float 0, .string 1] = .ok constants := by
  have valid : ∀ request ∈ [methodref "F" "F" "()J", long 7, float 0, float 0x80000000, string "F"],
      request.Valid := by
    have parses : (MethodDescriptor.ofDescriptor? "()J").isSome := by cbv
    simp [Valid, parses]
  have asked :
      [methodref "F" "F" "()J", long 7, float 0, float 0x80000000, string "F"].mapM ask {} =
      ([5, 6, 8, 8, 9], ⟨#[.utf8 [70], .classRef 1, .utf8 [40, 41, 74], .nameAndType 1 3,
        .methodref 2 4, .long 7, .empty, .float 0, .string 1]⟩) := by cbv
  obtain ⟨⟨constants, resolved, -⟩, -⟩ := requests_served _ _ _ valid asked (by decide)
  exact ⟨valid, asked, constants, resolved⟩

end PoolRequest

end JavaMachine
