import JavaMachine.Proofs.Assembler.Pushes
import JavaMachine.Proofs.Assembler.RoundTrip
import JavaMachine.Proofs.Class.Layout
import JavaMachine.Proofs.Constant.InOrder
import JavaMachine.Proofs.Machine.Phases

/-! # Numbers from scripts to classes

The numbers of a script pass through the constant pool, the class file and the linked class. What
comes out are the numbers that were given, bit for bit, save that a zero has the sign of the one that
was asked for first (`ClassScript.keepsNumbers_of_defines`): a static field with a constant value starts with it,
and the code that was emitted for a number pushes it. -/

namespace JavaMachine

open CodeBuilder (Assembled Placed)

/-! ## Numbers of a script -/

namespace FieldConstant

/-- The number that a field is declared with. -/
def value? : FieldConstant → Option Value
  | int value => some (.int value)
  | long value => some (.long value)
  | float bits => some (.float bits)
  | double bits => some (.double bits)
  | string _ => none

/-- The entry of the pool that a number takes. -/
def entry? : FieldConstant → Option PoolEntry
  | int value => some (.integer value)
  | long value => some (.long value)
  | float bits => some (.float bits)
  | double bits => some (.double bits)
  | string _ => none

/-- The floating-point constant that a field asks the pool for, if it does. -/
def floats : FieldConstant → List PoolEntry
  | float bits => [.float bits]
  | double bits => [.double bits]
  | _ => []

/-- The number that a field starts with, if floating-point constants were asked for in an order. -/
def kept? (asked : List PoolEntry) (constant : FieldConstant) : Option Value :=
  constant.entry?.bind fun entry => (entry.keptAmong asked).value?

/-- The number is the one that the field is declared with, unless it is a zero and the zero of the
other sign was asked for. -/
theorem kept?_eq {constant : FieldConstant} {asked : List PoolEntry}
    (alone : ∀ entry ∈ constant.floats, ∀ other, entry.opposite? = some other → other ∉ asked) :
    constant.kept? asked = constant.value? := by
  cases constant with
  | int value | long value =>
    rw [kept?, entry?, Option.bind_some, PoolEntry.keptAmong_eq fun other opposite => by cases opposite]
    rfl
  | float bits | double bits =>
    rw [kept?, entry?, Option.bind_some, PoolEntry.keptAmong_eq (alone _ List.mem_cons_self)]
    rfl
  | string text => rfl

theorem mem_floats_or {constant : FieldConstant} {entry : PoolEntry}
    (taken : constant.entry? = some entry) : entry ∈ constant.floats ∨ entry.opposite? = none := by
  cases constant with
  | int value | long value =>
    cases taken
    exact .inr rfl
  | float bits | double bits =>
    cases taken
    exact .inl List.mem_cons_self
  | string text => cases taken

/-- What the number of a field becomes is known once it was asked for. -/
theorem keptAmong_append {constant : FieldConstant} {entry : PoolEntry}
    (taken : constant.entry? = some entry) (earlier later : List PoolEntry) :
    entry.keptAmong (earlier ++ constant.floats ++ later) =
      entry.keptAmong (earlier ++ constant.floats) := by
  rcases mem_floats_or taken with among | plain
  · exact PoolEntry.keptAmong_append (List.mem_append_right _ among) later
  · have kept (asked : List PoolEntry) : entry.keptAmong asked = entry :=
      PoolEntry.keptAmong_eq fun other opposite => nomatch plain.symm.trans opposite
    rw [kept, kept]

end FieldConstant

namespace ClassItem

/-- The floating-point constants that an item asks the pool for, in order. -/
def floats : ClassItem → List PoolEntry
  | constantField _ _ _ value => value.floats
  | method _ _ _ _ body => body.flatMap CodeItem.floats
  | _ => []

/-- The flags of the field that an item declares, and its constant value if it has one. -/
def field? : ClassItem → Option (AccessFlags × Option FieldConstant)
  | .field access _ _ => some (access, none)
  | .constantField access _ _ value => some (access, some value)
  | _ => none

/-- The body of the method that an item declares, if it has one; a method without a body has none of
its own. -/
def method? : ClassItem → Option (Option (List CodeItem))
  | nativeMethod _ _ _ | abstractMethod _ _ _ => some none
  | method _ _ _ _ body => some (some body)
  | _ => none

end ClassItem

namespace ClassScript

/-- The floating-point constants that a script asks the pool for, in order. -/
def floats (script : ClassScript) : List PoolEntry :=
  script.items.flatMap ClassItem.floats

/-- The static fields that a script declares, in order, each with its constant value if it has one. -/
def staticFields (script : ClassScript) : List (Option FieldConstant) :=
  ((script.items.filterMap ClassItem.field?).filter (·.1.isStatic)).map Prod.snd

/-- The methods that a script declares, in order, each with its body if it has one. -/
def methods (script : ClassScript) : List (Option (List CodeItem)) :=
  script.items.filterMap ClassItem.method?

end ClassScript

/-! ## Members under construction -/

namespace ClassBuilder

variable {builder after : ClassBuilder} {asked : List PoolEntry} {done : List ClassItem}
  {before grown : PoolBuilder}

/-- The entry of a field in a class file, with the index of its number. -/
def FieldEntry (asked : List PoolEntry) (pool : PoolBuilder)
    (declared : AccessFlags × Option FieldConstant) (member : MemberEntry) : Prop :=
  member.flags = declared.1 ∧ ∀ constant, declared.2 = some constant →
    ∀ entry, constant.entry? = some entry → ∃ name index,
      member.attributes = [.raw name (Writer.u16 index)] ∧
      entryAt? pool.entries name = some (.utf8 (ModifiedUtf8.encode "ConstantValue")) ∧
      entryAt? pool.entries index = some (entry.keptAmong asked)

/-- The entry of a method in a class file, with the body that was assembled for it. -/
def MethodEntry (asked : List PoolEntry) (pool : PoolBuilder) (declared : Option (List CodeItem))
    (member : MemberEntry) : Prop :=
  ∀ items, declared = some items → ∃ name body start final earlier later,
    member.attributes = [.code name body] ∧ Assembled start items final body ∧
    start.pool.Settled earlier ∧ asked = earlier ++ items.flatMap CodeItem.floats ++ later ∧
    final.pool ≤ pool

theorem FieldEntry.of_le {declared : AccessFlags × Option FieldConstant} {member : MemberEntry}
    (entered : FieldEntry asked before declared member) (grows : before ≤ grown) :
    FieldEntry asked grown declared member := by
  refine ⟨entered.1, fun constant declares entry taken => ?_⟩
  obtain ⟨name, index, attributes, named, kept⟩ := entered.2 constant declares entry taken
  exact ⟨name, index, attributes, PoolBuilder.entryAt?_of_le grows named,
    PoolBuilder.entryAt?_of_le grows kept⟩

theorem MethodEntry.of_le {declared : Option (List CodeItem)} {member : MemberEntry}
    (entered : MethodEntry asked before declared member) (grows : before ≤ grown) :
    MethodEntry asked grown declared member := by
  intro items declares
  obtain ⟨name, body, start, final, earlier, later, attributes, assembled, settled, split, small⟩ :=
    entered items declares
  exact ⟨name, body, start, final, earlier, later, attributes, assembled, settled, split,
    small.trans grows⟩

/-- A class under construction has what was declared of it so far; `asked` are the floating-point
constants that its whole script asks for. -/
structure Keeps (asked : List PoolEntry) (done : List ClassItem) (builder : ClassBuilder) : Prop where
  settled : builder.pool.Settled (done.flatMap ClassItem.floats)
  fields : builder.pool.Small → List.Forall₂ (FieldEntry asked builder.pool)
    (done.filterMap ClassItem.field?) builder.fields.toList
  methods : List.Forall₂ (MethodEntry asked builder.pool) (done.filterMap ClassItem.method?)
    builder.methods.toList

namespace Keeps

variable {item : ClassItem}

/-- An item that declares no member and asks for no number. -/
theorem skip (keeps : builder.Keeps asked done) (floats : item.floats = [])
    (field : item.field? = none) (method : item.method? = none) (grows : builder.pool ≤ after.pool)
    (plain : after.pool.floats = builder.pool.floats) (fields : after.fields = builder.fields)
    (methods : after.methods = builder.methods) : after.Keeps asked (done ++ [item]) where
  settled := by
    rw [List.flatMap_append, List.flatMap_singleton, floats]
    exact PoolBuilder.asks_of_floats plain _ keeps.settled
  fields small := by
    rw [List.filterMap_append, List.filterMap_cons_none field, List.filterMap_nil, List.append_nil,
      fields]
    exact (keeps.fields (small.of_le grows)).imp fun _ _ entered => entered.of_le grows
  methods := by
    rw [List.filterMap_append, List.filterMap_cons_none method, List.filterMap_nil, List.append_nil,
      methods]
    exact keeps.methods.imp fun _ _ entered => entered.of_le grows

/-- An item that declares a field. -/
theorem declareField (keeps : builder.Keeps asked done)
    {declared : AccessFlags × Option FieldConstant} {member : MemberEntry}
    (field : item.field? = some declared) (method : item.method? = none)
    (grows : builder.pool ≤ after.pool) (asks : PoolBuilder.Asks item.floats builder.pool after.pool)
    (fields : after.fields = builder.fields.push member) (methods : after.methods = builder.methods)
    (entered : after.pool.Small → FieldEntry asked after.pool declared member) :
    after.Keeps asked (done ++ [item]) where
  settled := by
    rw [List.flatMap_append, List.flatMap_singleton]
    exact asks _ keeps.settled
  fields small := by
    rw [List.filterMap_append, List.filterMap_cons_some field, List.filterMap_nil, fields,
      Array.toList_push]
    exact List.rel_append
      ((keeps.fields (small.of_le grows)).imp fun _ _ entered => entered.of_le grows)
      (List.Forall₂.cons (entered small) .nil)
  methods := by
    rw [List.filterMap_append, List.filterMap_cons_none method, List.filterMap_nil, List.append_nil,
      methods]
    exact keeps.methods.imp fun _ _ entered => entered.of_le grows

/-- An item that declares a method. -/
theorem declareMethod (keeps : builder.Keeps asked done)
    {declared : Option (List CodeItem)} {member : MemberEntry}
    (field : item.field? = none) (method : item.method? = some declared)
    (grows : builder.pool ≤ after.pool) (asks : PoolBuilder.Asks item.floats builder.pool after.pool)
    (fields : after.fields = builder.fields) (methods : after.methods = builder.methods.push member)
    (entered : MethodEntry asked after.pool declared member) :
    after.Keeps asked (done ++ [item]) where
  settled := by
    rw [List.flatMap_append, List.flatMap_singleton]
    exact asks _ keeps.settled
  fields small := by
    rw [List.filterMap_append, List.filterMap_cons_none field, List.filterMap_nil, List.append_nil,
      fields]
    exact (keeps.fields (small.of_le grows)).imp fun _ _ entered => entered.of_le grows
  methods := by
    rw [List.filterMap_append, List.filterMap_cons_some method, List.filterMap_nil, methods,
      Array.toList_push]
    exact List.rel_append (keeps.methods.imp fun _ _ entered => entered.of_le grows)
      (List.Forall₂.cons entered .nil)

end Keeps

theorem exists_of_addField {flags : AccessFlags} {name descriptor : String}
    {attributes : List Attribute}
    (ended : addField flags name descriptor attributes builder = .ok ((), after)) :
    ∃ nameIndex descriptorIndex, after = { builder with
      pool := withTexts builder.pool name descriptor
      fields := builder.fields.push ⟨flags, nameIndex, descriptorIndex, attributes⟩ } := by
  unfold ClassBuilder.addField at ended
  split at ended
  · cases ended
  · cases ended
    exact ⟨_, _, rfl⟩

theorem exists_of_addBodiless {flags : AccessFlags} {name descriptor : String}
    (ended : addBodiless flags name descriptor builder = .ok ((), after)) :
    ∃ nameIndex descriptorIndex, after = { builder with
      pool := withTexts builder.pool name descriptor
      methods := builder.methods.push ⟨flags, nameIndex, descriptorIndex, []⟩ } := by
  unfold ClassBuilder.addBodiless at ended
  split at ended
  · cases ended
  · cases ended
    exact ⟨_, _, rfl⟩

theorem floats_withTexts (pool : PoolBuilder) (name descriptor : String) :
    (withTexts pool name descriptor).floats = pool.floats :=
  ((PoolBuilder.plain_utf8 descriptor).floats _).trans ((PoolBuilder.plain_utf8 name).floats pool)

/-- A body that was assembled, from the pool before to the pool after. -/
theorem exists_assembled {pool grown : PoolBuilder} {isStatic : Bool} {descriptor : String}
    {labels : Nat} {items : List CodeItem} {body : CodeBody Attribute}
    (ended : CodeBuilder.assemble pool isStatic descriptor labels items = .ok (body, grown)) :
    ∃ start final, Assembled start items final body ∧ start.pool = pool ∧ final.pool = grown := by
  unfold CodeBuilder.assemble at ended
  split at ended
  · cases ended
  · obtain ⟨⟨_, final⟩, emitted, ended⟩ := Except.bind_eq_ok_iff.mp ended
    obtain ⟨finished, ended', ended⟩ := Except.bind_eq_ok_iff.mp ended
    cases ended
    refine ⟨_, final, ⟨⟨rfl, rfl, rfl, fun label => ?_⟩, emitted, ended'⟩, rfl, rfl⟩
    simp only [CodeBuilder.offset?, Array.getD_eq_getD_getElem?, Array.getElem?_replicate]
    split <;> rfl

/-- The index of a constant, and what it names once it was asked for. -/
theorem constant_index {constant : FieldConstant} {pool : PoolBuilder} {earlier : List PoolEntry}
    (settled : pool.Settled earlier) :
    PoolBuilder.Asks constant.floats pool (constant.index pool).2 ∧
      ((constant.index pool).2.Small → ∀ entry, constant.entry? = some entry →
        entryAt? (constant.index pool).2.entries (constant.index pool).1 =
          some (entry.keptAmong (earlier ++ constant.floats))) := by
  cases constant with
  | int value =>
    refine ⟨PoolBuilder.asks_of_floats ((PoolBuilder.plain_integer value).floats pool),
      fun small entry taken => ?_⟩
    cases taken
    rw [PoolEntry.keptAmong_eq fun other opposite => by cases opposite]
    exact CodeBuilder.entryAt?_plain rfl small
  | long value =>
    refine ⟨PoolBuilder.asks_of_floats ((PoolBuilder.plain_long value).floats pool),
      fun small entry taken => ?_⟩
    cases taken
    rw [PoolEntry.keptAmong_eq fun other opposite => by cases opposite]
    exact CodeBuilder.entryAt?_plain rfl small
  | float bits | double bits =>
    refine ⟨PoolBuilder.asks_add pool rfl, fun small entry taken => ?_⟩
    cases taken
    exact settled.entryAt?_add rfl small
  | string text =>
    exact ⟨PoolBuilder.asks_of_floats ((PoolBuilder.plain_string text).floats pool), nofun⟩

/-- **An item keeps what was declared, and adds what it declares.** -/
theorem keeps_item {item : ClassItem} {rest : List PoolEntry} (keeps : builder.Keeps asked done)
    (total : asked = done.flatMap ClassItem.floats ++ item.floats ++ rest)
    (ended : ClassBuilder.item item builder = .ok ((), after)) :
    after.Keeps asked (done ++ [item]) := by
  cases item with
  | version major minor =>
    cases ended
    exact keeps.skip rfl rfl rfl le_rfl rfl rfl rfl
  | flags flags =>
    cases ended
    exact keeps.skip rfl rfl rfl le_rfl rfl rfl rfl
  | interface name =>
    cases ended
    have plain := PoolBuilder.plain_classRef name
    exact keeps.skip rfl rfl rfl (plain.growing _) (plain.floats _) rfl rfl
  | sourceFile name =>
    cases ended
    exact keeps.skip rfl rfl rfl (le_withTexts builder.pool "SourceFile" name)
      (floats_withTexts builder.pool "SourceFile" name) rfl rfl
  | field flags name descriptor =>
    obtain ⟨_, _, rfl⟩ := exists_of_addField ended
    exact keeps.declareField rfl rfl (le_withTexts builder.pool name descriptor)
      (PoolBuilder.asks_of_floats (floats_withTexts builder.pool name descriptor)) rfl rfl
      fun _ => ⟨rfl, nofun⟩
  | constantField flags name descriptor constant =>
    simp only [ClassBuilder.item, inPool_bind] at ended
    obtain ⟨_, _, rfl⟩ := exists_of_addField ended
    obtain ⟨asks, names⟩ : PoolBuilder.Asks constant.floats builder.pool _ ∧ _ :=
      constant_index keeps.settled
    have plain := PoolBuilder.plain_utf8 "ConstantValue"
    have labelled := plain.growing (constant.index builder.pool).2
    have described := le_withTexts
      (PoolBuilder.utf8 "ConstantValue" (constant.index builder.pool).2).2 name descriptor
    refine keeps.declareField rfl rfl
      ((constant.growing_index builder.pool).trans (labelled.trans described))
      (asks.of_floats ((floats_withTexts _ name descriptor).trans (plain.floats _))) rfl rfl
      fun small => ⟨rfl, fun constant' same entry taken => ?_⟩
    cases same
    have few := small.of_le described
    refine ⟨_, _, rfl, PoolBuilder.entryAt?_of_le described (PoolBuilder.entryAt?_utf8 _ few), ?_⟩
    rw [total]
    refine PoolBuilder.entryAt?_of_le (labelled.trans described) ?_
    exact (names (few.of_le labelled) entry taken).trans
      (congrArg some (FieldConstant.keptAmong_append taken _ _).symm)
  | nativeMethod flags name descriptor =>
    obtain ⟨_, _, rfl⟩ := exists_of_addBodiless ended
    exact keeps.declareMethod rfl rfl (le_withTexts builder.pool name descriptor)
      (PoolBuilder.asks_of_floats (floats_withTexts builder.pool name descriptor)) rfl rfl nofun
  | abstractMethod flags name descriptor =>
    obtain ⟨_, _, rfl⟩ := exists_of_addBodiless ended
    exact keeps.declareMethod rfl rfl (le_withTexts builder.pool name descriptor)
      (PoolBuilder.asks_of_floats (floats_withTexts builder.pool name descriptor)) rfl rfl nofun
  | method flags name descriptor labels body =>
    obtain ⟨made, pool, assembles, rfl⟩ := exists_of_addMethod ended
    obtain ⟨start, final, assembled, begins, rfl⟩ := exists_assembled assembles
    have plain := PoolBuilder.plain_utf8 "Code"
    have labelled := plain.growing (withTexts builder.pool name descriptor)
    have same : start.pool.floats = builder.pool.floats := by
      rw [begins]
      exact (plain.floats _).trans (floats_withTexts builder.pool name descriptor)
    have emits : start.pool ≤ final.pool := CodeBuilder.le_of_items assembled.emitted
    have grows : builder.pool ≤ start.pool := by
      rw [begins]
      exact (le_withTexts builder.pool name descriptor).trans labelled
    have settled : start.pool.Settled (done.flatMap ClassItem.floats) := by
      intro entry isFloat
      rw [same]
      exact keeps.settled entry isFloat
    have asks : PoolBuilder.Asks (body.flatMap CodeItem.floats) builder.pool final.pool :=
      (PoolBuilder.asks_of_floats same).trans (CodeBuilder.asks_items assembled.emitted)
    refine keeps.declareMethod rfl rfl (grows.trans emits) asks rfl rfl fun items declares => ?_
    cases declares
    exact ⟨_, made, start, final, _, rest, rfl, assembled, settled, total, le_rfl⟩

theorem keeps_items {items : List ClassItem} (keeps : builder.Keeps asked done)
    (total : asked = (done ++ items).flatMap ClassItem.floats)
    (ended : items.forM ClassBuilder.item builder = .ok ((), after)) :
    after.Keeps asked (done ++ items) := by
  rw [List.forM_eq_forM] at ended
  induction items generalizing builder done with
  | nil =>
    cases ended
    rw [List.append_nil]
    exact keeps
  | cons first rest ih =>
    rw [List.forM_cons] at ended
    obtain ⟨_, middle, began, ended⟩ := Assembling.exists_of_bind ended
    have split : asked =
        done.flatMap ClassItem.floats ++ first.floats ++ rest.flatMap ClassItem.floats := by
      rw [total, List.flatMap_append, List.flatMap_cons, List.append_assoc]
    rw [List.append_cons] at total ⊢
    exact ih (keeps_item keeps split began) total ended

theorem keeps_start (name : String) (superclass : Option String) :
    (start name superclass).Keeps asked [] where
  settled := by
    have plain := PoolBuilder.plain_classRef name
    have empty : PoolBuilder.floats {} = [] := rfl
    cases superclass with
    | none =>
      have same : (start name none).pool.floats = [] := (plain.floats {}).trans empty
      exact fun entry _ => by rw [same]; rfl
    | some above =>
      have same : (start name (some above)).pool.floats = [] :=
        ((PoolBuilder.plain_classRef above).floats _).trans ((plain.floats {}).trans empty)
      exact fun entry _ => by rw [same]; rfl
  fields _ := by cases superclass <;> exact .nil
  methods := by cases superclass <;> exact .nil

end ClassBuilder

/-! ## Numbers of a linked class -/

namespace Link

open Constant (Meanings Denotes denotes_iff)

variable {pool : Array PoolEntry} {constants : Array Constant} {index : UInt16} {entry : PoolEntry}
  {value : Value}

/-- What an entry denotes is found under its index. -/
theorem exists_constant (meanings : Meanings pool constants)
    (found : entryAt? pool index = some entry) (proper : entry ≠ .empty) :
    ∃ constant, index.toNat ≠ 0 ∧ constants[index.toNat - 1]? = some constant ∧
      Denotes pool index constant := by
  obtain ⟨constant, there, denotes⟩ := meanings.denoted index ⟨entry, found, proper⟩
  exact ⟨constant, fun zero => (Constant.entryAt?_eq_some found).1 (UInt16.toNat_inj.mp zero), there,
    denotes⟩

theorem constantAt_of_denotes (meanings : Meanings pool constants)
    (found : entryAt? pool index = some entry) (proper : entry ≠ .empty) :
    ∃ constant, constantAt constants index = .ok constant ∧ Denotes pool index constant := by
  obtain ⟨constant, numbered, there, denotes⟩ := exists_constant meanings found proper
  obtain ⟨position, same⟩ := Nat.exists_eq_succ_of_ne_zero numbered
  have content : constant ≠ .empty := denotes.ne_empty
  rw [same, Nat.succ_sub_one] at there
  refine ⟨constant, ?_, denotes⟩
  unfold constantAt
  simp only [same, there]

/-- A numeric entry means its number. -/
theorem value?_of_denotes {constant : Constant} (found : entryAt? pool index = some entry)
    (number : entry.value? = some value) (denotes : Denotes pool index constant) :
    constant.value? = some value := by
  have means := (denotes_iff found).mp denotes
  cases entry with
  | integer | float | long | double =>
    obtain rfl := means
    exact number
  | _ => cases number

theorem proper_of_number (number : entry.value? = some value) : entry ≠ .empty := by
  rintro rfl
  cases number

/-- A class with the meanings of a pool has what the entries of the pool denote. -/
theorem constant?_of_denotes {c : LinkedClass} {constant : Constant}
    (meanings : Meanings pool constants) (resolved : c.info.pool = constants)
    (denotes : Denotes pool index constant) : c.constant? index = some constant := by
  obtain ⟨entry, found, proper⟩ := denotes.namesEntry
  obtain ⟨other, numbered, there, denotes'⟩ := exists_constant meanings found proper
  obtain rfl := denotes'.unique denotes
  obtain ⟨position, same⟩ := Nat.exists_eq_succ_of_ne_zero numbered
  have content : other ≠ .empty := denotes.ne_empty
  rw [same, Nat.succ_sub_one] at there
  unfold LinkedClass.constant?
  simp only [same, resolved, there]
  cases other with
  | empty => exact absurd rfl content
  | _ => rfl

/-- A class with the meanings of a pool has its numbers. -/
theorem hasNumbers_of_meanings {c : LinkedClass} (meanings : Meanings pool constants)
    (resolved : c.info.pool = constants) : c.HasNumbers ⟨pool⟩ := by
  intro index entry value found number
  obtain ⟨constant, -, -, denotes⟩ := exists_constant meanings found (proper_of_number number)
  exact ⟨constant, constant?_of_denotes meanings resolved denotes,
    value?_of_denotes found number denotes⟩

/-- The number at an index, as the constant value of a field. -/
theorem constantValueAt_of_number (meanings : Meanings pool constants)
    (found : entryAt? pool index = some entry) (number : entry.value? = some value) :
    ∃ constant, constantValueAt constants index = .ok constant ∧ constant.value? = some value := by
  obtain ⟨constant, there, denotes⟩ :=
    constantAt_of_denotes meanings found (proper_of_number number)
  have same := value?_of_denotes found number denotes
  unfold constantValueAt
  simp only [there, Except.bind_eq_ok_iff]
  cases constant with
  | integer | float | long | double => exact ⟨_, ⟨_, rfl, rfl⟩, same⟩
  | _ => cases same

theorem textAt_of_utf8 {text : String} (meanings : Meanings pool constants)
    (found : entryAt? pool index = some (.utf8 (ModifiedUtf8.encode text)))
    (decodes : ModifiedUtf8.decode (ModifiedUtf8.encode text) = some text) :
    textAt constants index = .ok text := by
  obtain ⟨constant, there, denotes⟩ := constantAt_of_denotes meanings found nofun
  obtain ⟨text', decodes', rfl⟩ := (denotes_iff found).mp denotes
  obtain rfl : text = text' := Option.some.inj (decodes.symm.trans decodes')
  unfold textAt
  rw [there]
  rfl

/-- A field with a number as its constant value is linked to start with it. -/
theorem constant_of_field {member : MemberEntry} {field : Field} {name : UInt16}
    (meanings : Meanings pool constants) (linked : Link.field constants member = .ok field)
    (attributes : member.attributes = [.raw name (Writer.u16 index)])
    (named : entryAt? pool name = some (.utf8 (ModifiedUtf8.encode "ConstantValue")))
    (found : entryAt? pool index = some entry) (number : entry.value? = some value) :
    field.constant.bind FieldConstant.value? = some value := by
  obtain ⟨constant, there, same⟩ := constantValueAt_of_number meanings found number
  have label : textAt constants name = .ok "ConstantValue" :=
    textAt_of_utf8 meanings named (by decide +kernel)
  have whole : indexOf "ConstantValue" (Writer.u16 index) = .ok index :=
    congrArg Except.ok (Writer.join_bytes index)
  have meant : meaningOf constants (.raw name (Writer.u16 index)) = .ok (.constantValue constant) := by
    have present : ("ConstantValue" == "ConstantValue") = true := by decide
    unfold meaningOf
    refine Except.bind_eq_ok_iff.mpr ⟨_, label, ?_⟩
    dsimp only
    rw [if_pos present]
    exact Except.bind_eq_ok_iff.mpr ⟨_, whole, Except.bind_eq_ok_iff.mpr ⟨_, there, rfl⟩⟩
  simp only [Link.field, Except.bind_eq_ok_iff] at linked
  obtain ⟨_, -, descriptor, -, linked⟩ := linked
  split at linked
  · cases linked
  · obtain ⟨meanings', listed, linked⟩ := Except.bind_eq_ok_iff.mp linked
    rw [attributes, List.mapM_cons, List.mapM_nil, meant] at listed
    cases listed
    cases linked
    exact same

theorem flags_of_field {member : MemberEntry} {field : Field}
    (linked : Link.field constants member = .ok field) : field.flags = member.flags := by
  simp only [Link.field, Except.bind_eq_ok_iff] at linked
  obtain ⟨_, -, descriptor, -, linked⟩ := linked
  split at linked
  · cases linked
  · obtain ⟨meanings, -, linked⟩ := Except.bind_eq_ok_iff.mp linked
    cases linked
    rfl

/-- A method is linked with the code of its body. -/
theorem code_of_method {member : MemberEntry} {method : Method} {name : UInt16}
    {body : CodeBody Attribute} (linked : Link.method constants member = .ok method)
    (attributes : member.attributes = [.code name body]) :
    ∃ code, method.code = some code ∧ code.bytes = body.code.toArray := by
  simp only [Link.method, Except.bind_eq_ok_iff] at linked
  obtain ⟨text, -, descriptor, -, linked⟩ := linked
  split at linked
  · cases linked
  · obtain ⟨code, coded, linked⟩ := Except.bind_eq_ok_iff.mp linked
    rw [attributes, codeAmong, Except.bind_eq_ok_iff] at coded
    obtain ⟨own, decoded, coded⟩ := coded
    obtain rfl : some own = code := Except.ok.inj coded
    have bytes : own.bytes = body.code.toArray := by
      unfold Link.code at decoded
      obtain ⟨handlers, -, decoded⟩ := Except.bind_eq_ok_iff.mp decoded
      cases decoded
      rfl
    split at linked
    · cases linked
    · split at linked
      · cases linked
      · cases linked
        exact ⟨own, rfl, bytes⟩

end Link

/-! ## Numbers of an initialized class -/

namespace Exec

variable {services : Services} {machine after : Machine} {c : LinkedClass} {value : Value}

theorem classes_intern {text : String} {ref : Ref}
    (ended : intern text services machine = .ok ref after) : after.classes = machine.classes := by
  have read : (get : Exec Machine) services machine = .ok machine machine := rfl
  unfold intern at ended
  rw [Operation.bind_of_ok read] at ended
  cases known : machine.interned.lookup text with
  | some ref =>
    simp only [known] at ended
    cases ended
    rfl
  | none =>
    simp only [known] at ended
    cases ended
    rfl

/-- A constant value takes no part in the state of classes; that of a number is the number. -/
theorem constantValue_eq_ok {constant : FieldConstant}
    (ended : constantValue constant services machine = .ok value after) :
    after.classes = machine.classes ∧ ∀ number, constant.value? = some number → value = number := by
  cases constant with
  | string text =>
    obtain ⟨ref, middle, interned, ended⟩ := Operation.exists_of_bind_ok ended
    cases ended
    exact ⟨classes_intern interned, nofun⟩
  | _ =>
    cases ended
    exact ⟨rfl, fun number same => Option.some.inj same⟩

/-- A field gets its constant value, if it has one. -/
theorem exists_of_assignConstants {field : Field} {rest : List Field}
    (ended : assignConstants c (field :: rest) services machine = .ok () after) :
    ∃ middle, assignConstants c rest services middle = .ok () after ∧
      (∀ slot, slot ≠ field.slot →
        (stateIn c middle).statics[slot]? = (stateIn c machine).statics[slot]?) ∧
      ∀ number, field.constant.bind FieldConstant.value? = some number →
        (stateIn c middle).statics[field.slot]? = some number := by
  rw [assignConstants] at ended
  cases constant : field.constant with
  | none =>
    rw [constant] at ended
    exact ⟨machine, ended, fun _ _ => rfl, fun number given => by cases given⟩
  | some constant =>
    simp only [constant] at ended
    obtain ⟨value, valued, evaluated, ended⟩ := Operation.exists_of_bind_ok ended
    obtain ⟨classes, same⟩ := constantValue_eq_ok evaluated
    have still : stateIn c valued = stateIn c machine := by rw [stateIn, stateIn, classes]
    obtain ⟨_, middle, stored, ended⟩ := Operation.exists_of_bind_ok ended
    rw [setStatic_eq] at stored
    split at stored
    · next inside =>
      cases stored
      refine ⟨_, ended, fun slot other => ?_, fun number given => ?_⟩
      · rw [stateIn_withClass, still, Array.getElem?_setIfInBounds_ne (Ne.symm other)]
      · rw [stateIn_withClass, same number given, Array.getElem?_setIfInBounds_self_of_lt inside]
    · cases stored

theorem statics_of_assignConstants {fields : List Field} {slot : Nat}
    (ended : assignConstants c fields services machine = .ok () after)
    (other : ∀ field ∈ fields, field.slot ≠ slot) :
    (stateIn c after).statics[slot]? = (stateIn c machine).statics[slot]? := by
  induction fields generalizing machine with
  | nil =>
    cases ended
    rfl
  | cons first rest ih =>
    obtain ⟨middle, ended, kept, -⟩ := exists_of_assignConstants ended
    obtain ⟨here, behind⟩ := List.forall_mem_cons.mp other
    rw [ih ended behind, kept slot (Ne.symm here)]

/-- **Fields with numbers get them**, as each has a slot of its own. -/
theorem numbers_of_assignConstants {fields : List Field}
    (distinct : fields.Pairwise fun field other => field.slot ≠ other.slot)
    (ended : assignConstants c fields services machine = .ok () after) {field : Field}
    (member : field ∈ fields) (number : field.constant.bind FieldConstant.value? = some value) :
    (stateIn c after).statics[field.slot]? = some value := by
  induction fields generalizing machine with
  | nil => cases member
  | cons first rest ih =>
    obtain ⟨middle, others, -, assigned⟩ := exists_of_assignConstants ended
    obtain ⟨here, behind⟩ := List.pairwise_cons.mp distinct
    rcases List.mem_cons.mp member with rfl | member
    · rw [statics_of_assignConstants others fun other inside => Ne.symm (here other inside)]
      exact assigned value number
    · exact ih behind others member

end Exec

/-- A static field starts with a value: it holds the value when the static initializer of its class
begins, and without such an initializer when the class is initialized. -/
structure Field.StartsWith (field : Field) (c : LinkedClass) (value : Value) : Prop where
  assigned (services : Services) (machine after : Machine)
    (ended : Exec.assignConstants c c.staticFields services machine = .ok () after) :
    (Exec.stateIn c after).statics[field.slot]? = some value
  initialized (services : Services) (machine after : Machine)
    (quiet : c.declaredMethod? MemberName.staticInitializer "()V" = none)
    (untouched : machine.phases c.name = .untouched)
    (ended : Exec.ensureInitialized c services machine = .ok () after) :
    (Exec.stateIn c after).statics[field.slot]? = some value

namespace Loader.Defines

variable {sources : List ClassSource} {c : LinkedClass} {field : Field} {value : Value}

/-- A class is linked from the file that the sources have under its name. -/
theorem linked_of_found {file : ClassFile} {bytes : List UInt8} (defined : Defines sources c)
    (plain : c.name.startsWith "[" = false) (found : findClass c.name sources = .ok bytes)
    (read : ClassFile.read bytes = .ok file) :
    ∃ constants, Constant.resolvePool file.pool = .ok constants ∧
      Link.link file constants c.name c.superclass c.interfaces = .ok c := by
  cases defined with
  | @file name file' pool superclass interfaces _ described _ _ _ _ _ _ linked =>
    obtain ⟨rfl, -, rfl, rfl, -⟩ := Link.parts_of_link linked
    obtain ⟨bytes', found', read'⟩ := described.found
    obtain rfl : bytes' = bytes := Except.ok.inj (found'.symm.trans found)
    obtain rfl : file' = file := Except.ok.inj (read'.symm.trans read)
    exact ⟨pool, described.resolved, linked⟩
  | array spelled => cases (startsWith_of_spelled spelled).symm.trans plain

theorem distinct_staticFields (defined : Defines sources c) :
    c.staticFields.Pairwise fun field other => field.slot ≠ other.slot := by
  refine List.pairwise_iff_getElem.mpr fun i j inside inside' before => ?_
  rw [defined.slot_staticField (List.getElem?_eq_getElem inside),
    defined.slot_staticField (List.getElem?_eq_getElem inside')]
  exact Nat.ne_of_lt before

/-- A static field of a class starts with the number that it is linked with. -/
theorem startsWith (defined : Defines sources c) (member : field ∈ c.staticFields)
    (number : field.constant.bind FieldConstant.value? = some value) : field.StartsWith c value where
  assigned services machine after ended :=
    Exec.numbers_of_assignConstants defined.distinct_staticFields ended member number
  initialized services machine after quiet untouched ended := by
    rw [Exec.ensureInitialized_of_untouched untouched] at ended
    revert ended
    cases carried : (do
        Exec.ensureInitialized.ofSuperclass c.superclass
        Exec.initializeSelf c : Exec Unit) services (Exec.withPhase c .running machine) with
    | error interruption inside => exact nofun
    | ok _ inside =>
      intro ended
      cases ended
      obtain ⟨_, ready, -, carried⟩ := Operation.exists_of_bind_ok carried
      obtain ⟨_, between, assigned, carried⟩ := Operation.exists_of_bind_ok carried
      rw [Exec.runInitializer, quiet] at carried
      cases carried
      rw [Exec.withPhase, Exec.stateIn_withClass]
      exact Exec.numbers_of_assignConstants defined.distinct_staticFields assigned member number

end Loader.Defines

/-! ## The whole way -/

/-- No zero among some constants is the opposite of one among others. -/
def PoolEntry.Unopposed (asked own : List PoolEntry) : Prop :=
  ∀ entry ∈ own, ∀ other, entry.opposite? = some other → other ∉ asked

/-- The code of a method was assembled from items, and wherever one of them pushes a number, so does
its code. -/
def Method.PushesNumbers (method : Method) (owner : LinkedClass) (asked : List PoolEntry)
    (items : List CodeItem) : Prop :=
  ∃ code start final body, method.code = some code ∧ code.bytes = body.code.toArray ∧
    Assembled start items final body ∧
    (∀ item ∈ items, ∃ offset next, Placed start items item offset next) ∧
    ∀ item offset next value, Placed start items item offset next → item.pushed? asked = some value →
      ∀ frame callers, frame.owner = owner → frame.At body offset →
        Execution.advance ⟨frame, callers⟩ = Execution.transferring (Frame.push value)
          (fun _ => Execution.goOn next callers) frame

namespace ClassScript

/-- A class has the numbers of a script: its static fields start with those they are declared with,
and its methods push those that their bodies name. A number is the one that was given, unless it is a
zero and the script asks for the zero of the other sign as well. -/
structure KeepsNumbers (script : ClassScript) (c : LinkedClass) : Prop where
  fields : List.Forall₂ (fun declared field => ∀ constant value, declared = some constant →
    constant.kept? script.floats = some value → field.StartsWith c value)
    script.staticFields c.staticFields
  methods : List.Forall₂ (fun declared method => ∀ items, declared = some items →
    method.PushesNumbers c script.floats items) script.methods c.methods.toList
  exactFields (constant : FieldConstant)
    (unopposed : PoolEntry.Unopposed script.floats constant.floats) :
    constant.kept? script.floats = constant.value?
  exactItems (item : CodeItem) (unopposed : PoolEntry.Unopposed script.floats item.floats) :
    item.pushed? script.floats = item.given?

/-- What is assembled has the members that were declared, in a pool whose indices fit two bytes. -/
theorem exists_keeps {script : ClassScript} {file : ClassFile}
    (assembled : script.assemble = .ok file) :
    ∃ builder : ClassBuilder, builder.Keeps script.floats script.items ∧ builder.pool.Small ∧
      builder.pool.entries = file.pool ∧ builder.fields.toList = file.fields ∧
      builder.methods.toList = file.methods := by
  obtain ⟨⟨_, builder⟩, built, finished⟩ := Except.bind_eq_ok_iff.mp assembled
  have keeps := ClassBuilder.keeps_items
    (ClassBuilder.keeps_start script.name script.superclass) rfl built
  change builder.finish = .ok file at finished
  unfold ClassBuilder.finish at finished
  split at finished
  · cases finished
  · next fits =>
    cases finished
    exact ⟨builder, keeps, Nat.lt_of_not_le fits, rfl, rfl, rfl⟩

end ClassScript

theorem Link.forall₂_withSlots {α : Type} {related : α → Field → Prop} {items : List α}
    {fields : List Field} (all : List.Forall₂ related items fields)
    (unslotted : ∀ item (field : Field) slot, related item field →
      related item { field with slot }) (first : Nat) :
    List.Forall₂ related items (Link.withSlots first fields) := by
  induction all generalizing first with
  | nil => exact .nil
  | cons here _ ih =>
    have behind := ih (first + 1)
    rw [Link.withSlots] at behind ⊢
    rw [List.mapIdx_cons]
    refine .cons (unslotted _ _ _ here) ?_
    simpa only [Nat.add_assoc, Nat.add_comm 1] using behind

section Whole

variable {script : ClassScript} {c : LinkedClass} {builder : ClassBuilder}
  {constants : Array Constant} {asked : List PoolEntry}

/-- Declared fields are linked with their numbers. -/
theorem ClassBuilder.FieldEntry.constant {declared : AccessFlags × Option FieldConstant}
    {member : MemberEntry} {field : Field}
    (entered : ClassBuilder.FieldEntry asked builder.pool declared member)
    (meanings : Constant.Meanings builder.pool.entries constants)
    (linked : Link.field constants member = .ok field) :
    field.flags = declared.1 ∧ ∀ constant value, declared.2 = some constant →
      constant.kept? asked = some value → field.constant.bind FieldConstant.value? = some value := by
  refine ⟨(Link.flags_of_field linked).trans entered.1, fun constant value declares kept => ?_⟩
  obtain ⟨entry, taken, number⟩ := Option.bind_eq_some_iff.mp kept
  obtain ⟨name, index, attributes, named, found⟩ := entered.2 constant declares entry taken
  exact Link.constant_of_field meanings linked attributes named found number

/-- Declared methods push the numbers of their bodies. -/
theorem ClassBuilder.MethodEntry.pushesNumbers {declared : Option (List CodeItem)}
    {member : MemberEntry} {method : Method}
    (entered : ClassBuilder.MethodEntry asked builder.pool declared member)
    (small : builder.pool.Small) (numbers : c.HasNumbers builder.pool)
    (linked : Link.method constants member = .ok method) :
    ∀ items, declared = some items → method.PushesNumbers c asked items := by
  intro items declares
  obtain ⟨name, body, start, final, earlier, later, attributes, assembled, settled, rfl, grows⟩ :=
    entered items declares
  obtain ⟨code, coded, bytes⟩ := Link.code_of_method linked attributes
  refine ⟨code, start, final, body, coded, bytes, assembled,
    fun item member => assembled.exists_placed member, ?_⟩
  intro item offset next value placed number
  exact assembled.pushes (small.of_le grows) (numbers.of_le grows) settled placed number

/-- **Numbers survive**: a class that is linked from the file of a script has the numbers of the
script, in its static fields and in the code of its methods. -/
theorem ClassScript.keepsNumbers_of_defines {file : ClassFile} {sources : List ClassSource}
    (assembled : script.assemble = .ok file)
    (version : 45 ≤ file.majorVersion.toNat ∧ file.majorVersion.toNat ≤ 69)
    (representable : file.Representable) (defined : Loader.Defines sources c)
    (plain : c.name.startsWith "[" = false)
    (found : findClass c.name sources = .ok file.write) : script.KeepsNumbers c := by
  obtain ⟨builder, keeps, small, pool, fields, methods⟩ := script.exists_keeps assembled
  have read := (ClassScript.wellFormed_of_assemble assembled version representable).read_write
  obtain ⟨constants, resolved, linked⟩ := defined.linked_of_found plain found read
  have few : builder.pool.entries.size ≤ 65534 := Nat.le_of_lt_succ small
  rw [← pool] at resolved
  have meanings := Constant.meanings_of_resolvePool few resolved
  obtain ⟨own, ⟨linkedFields, fieldsLinked, static, -⟩, linkedMethods, methodsLinked, same⟩ :=
    Link.members_of_link linked
  have numbers : c.HasNumbers builder.pool := Link.hasNumbers_of_meanings meanings own
  rw [← fields] at fieldsLinked
  rw [← methods] at methodsLinked
  constructor
  case fields =>
    have each (declared : AccessFlags × Option FieldConstant) (member : MemberEntry) (field : Field)
        (entered : ClassBuilder.FieldEntry script.floats builder.pool declared member)
        (linked : Link.field constants member = .ok field) := entered.constant meanings linked
    have all := Except.forall₂_of_mapM each (keeps.fields small) fieldsLinked
    have statics := List.rel_filter (p := fun declared => declared.1.isStatic)
      (q := fun field : Field => field.flags.isStatic)
      (fun declared field known => by dsimp only; rw [known.1]) all
    have slotted := Link.forall₂_withSlots statics (fun _ _ _ known => known) 0
    rw [← static] at slotted
    have members := (List.forall₂_and_left _ _).mpr ⟨fun field member => member, slotted.flip⟩
    exact List.forall₂_map_left_iff.mpr (members.flip.imp fun declared field known constant value
      declares kept => defined.startsWith known.1 (known.2.2 constant value declares kept))
  case methods =>
    rw [same]
    have each (declared : Option (List CodeItem)) (member : MemberEntry) (method : Method)
        (entered : ClassBuilder.MethodEntry script.floats builder.pool declared member)
        (linked : Link.method constants member = .ok method) :=
      entered.pushesNumbers small numbers linked
    exact Except.forall₂_of_mapM each keeps.methods methodsLinked
  case exactFields => exact fun constant unopposed => FieldConstant.kept?_eq unopposed
  case exactItems => exact fun item unopposed => CodeItem.pushed?_eq unopposed

end Whole

end JavaMachine
