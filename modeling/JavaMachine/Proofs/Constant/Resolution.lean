import JavaMachine.Proofs.Constant.Meaning

/-! # Resolving a pool

Resolving an entry notes what was found and marks what is being resolved. Whatever was noted before,
it ends with the constant that the entry denotes, or else with an error of that entry: the faults of
entries that are referred to are passed on as faults of the one that refers to them. A mark is only
ever met by following references in a circle. -/

namespace JavaMachine

open Constant

/-- What is noted about a pool is right, and these entries are being resolved. -/
structure Resolution.Sound (pool : Array PoolEntry) (visiting : List UInt16)
    (resolution : Resolution) : Prop where
  size : resolution.found.size = pool.size
  found : ∀ index constant, index ≠ 0 → resolution.found? (index.toNat - 1) = some constant →
    Denotes pool index constant
  visiting : resolution.visiting = visiting

/-- What was noted stays noted. -/
def Resolution.Extends (before after : Resolution) : Prop :=
  ∀ position constant, before.found? position = some constant →
    after.found? position = some constant

namespace Resolving

variable {α β : Type} {pool : Array PoolEntry} {visiting : List UInt16} {source : UInt16}

/-- While some entries are being resolved, two actions, which may differ in how deep they follow
references, end alike: with what is meant, or else, if nothing is meant, with an error of an
entry. -/
def Yields (pool : Array PoolEntry) (visiting : List UInt16) (source : UInt16)
    (action other : Resolving α) (meant : α → Prop) : Prop :=
  ∀ before, before.Sound pool visiting → other before = action before ∧
    ((∃ value after, action before = .ok (value, after) ∧ meant value ∧
      after.Sound pool visiting ∧ before.Extends after) ∨
    ∃ fault, action before = .error (.unresolvedConstant source fault) ∧ ∀ value, ¬ meant value)

/-! ## Sequences -/

theorem bind_of_ok {action : Resolving α} {next : α → Resolving β} {before after : Resolution}
    {value : α} (ended : action before = .ok (value, after)) :
    (action >>= next) before = next value after := by
  simp only [Bind.bind, StateT.bind, Except.bind, ended]

theorem bind_of_error {action : Resolving α} {next : α → Resolving β} {before : Resolution}
    {error : Error} (ended : action before = .error error) :
    (action >>= next) before = .error error := by
  simp only [Bind.bind, StateT.bind, Except.bind, ended]

theorem yields_pure {meant : α → Prop} {value : α} (holds : meant value) :
    Yields pool visiting source (pure value) (pure value) meant :=
  fun before sound => ⟨rfl, .inl ⟨value, before, rfl, holds, sound, fun _ _ => id⟩⟩

theorem yields_fail {meant : α → Prop} {fault : ConstantFault} (nothing : ∀ value, ¬ meant value) :
    Yields pool visiting source (fail source fault) (fail source fault) meant :=
  fun _ _ => ⟨rfl, .inr ⟨fault, rfl, nothing⟩⟩

/-- A sequence yields what is meant at its end, as at most one thing is meant on the way. -/
theorem Yields.bind {action other : Resolving α} {next otherNext : α → Resolving β}
    {meant : α → Prop} (meantNext : α → β → Prop)
    (first : Yields pool visiting source action other meant)
    (unique : ∀ value value', meant value → meant value' → value = value')
    (rest : ∀ value, meant value →
      Yields pool visiting source (next value) (otherNext value) (meantNext value)) :
    Yields pool visiting source (action >>= next) (other >>= otherNext)
      fun result => ∃ value, meant value ∧ meantNext value result := by
  intro before sound
  obtain ⟨same, ⟨value, middle, ended, holds, soundThen, extended⟩ | ⟨fault, ended, nothing⟩⟩ :=
    first before sound
  · obtain ⟨sameNext, rest⟩ := rest value holds middle soundThen
    rw [bind_of_ok ended, bind_of_ok (same.trans ended)]
    refine ⟨sameNext, ?_⟩
    rcases rest with ⟨result, after, ended, holdsNext, soundAfter, extendedAgain⟩ |
      ⟨fault, ended, nothing⟩
    · exact .inl ⟨result, after, ended, ⟨value, holds, holdsNext⟩, soundAfter,
        fun position constant noted => extendedAgain _ _ (extended _ _ noted)⟩
    · refine .inr ⟨fault, ended, ?_⟩
      rintro result ⟨value', holds', holdsNext⟩
      cases unique value value' holds holds'
      exact nothing result holdsNext
  · rw [bind_of_error ended, bind_of_error (same.trans ended)]
    refine ⟨rfl, .inr ⟨fault, rfl, ?_⟩⟩
    rintro result ⟨value, holds, -⟩
    exact nothing value holds

/-- A pure change of what an action yields. -/
theorem Yields.map {action other : Resolving α} {meant : α → Prop} (f : α → β)
    (first : Yields pool visiting source action other meant)
    (unique : ∀ value value', meant value → meant value' → value = value') :
    Yields pool visiting source (do return f (← action)) (do return f (← other))
      fun result => ∃ value, meant value ∧ result = f value :=
  first.bind (fun value result => result = f value) unique fun _ _ => yields_pure rfl

theorem Yields.congr {action other : Resolving α} {meant meant' : α → Prop}
    (yields : Yields pool visiting source action other meant)
    (same : ∀ value, meant value ↔ meant' value) :
    Yields pool visiting source action other meant' := by
  have equal : meant = meant' := funext fun value => propext (same value)
  exact equal ▸ yields

/-- Whatever is resolved on behalf of an entry fails, if it does, with an error of that entry. -/
theorem Yields.onBehalf {action other : Resolving α} {meant : α → Prop} {target : UInt16}
    (yields : Yields pool visiting target action other meant) :
    Yields pool visiting source (onBehalf source target action) (onBehalf source target other)
      meant := by
  intro before sound
  unfold Resolving.onBehalf
  obtain ⟨same, ⟨value, after, ended, holds⟩ | ⟨fault, ended, nothing⟩⟩ := yields before sound
  · rw [same, ended]
    exact ⟨rfl, .inl ⟨value, after, rfl, holds⟩⟩
  · rw [same, ended, Except.mapError, blame, if_pos rfl]
    exact ⟨rfl, .inr ⟨.nested target fault, rfl, nothing⟩⟩

end Resolving

namespace Constant

open Resolving (Yields yields_pure yields_fail)

variable {pool : Array PoolEntry} {visiting : List UInt16} {source index : UInt16}

/-! ## References of the right kind -/

section References

variable {follow other : Follow} {owner member : UInt16}

theorem yields_followUtf8
    (follows : Yields pool visiting source (follow index) (other index) (Denotes pool index)) :
    Yields pool visiting source (followUtf8 follow source index) (followUtf8 other source index)
      fun text => Denotes pool index (utf8 text) := by
  unfold followUtf8
  refine Yields.congr (Yields.bind (fun constant text => constant = utf8 text) follows
    (fun _ _ => Denotes.unique) fun constant _ => ?_) fun text => exists_eq_right
  cases constant with
  | utf8 text => exact yields_pure rfl
  | _ => exact yields_fail nofun

theorem yields_followClass
    (follows : Yields pool visiting source (follow index) (other index) (Denotes pool index)) :
    Yields pool visiting source (followClass follow source index) (followClass other source index)
      fun name => Denotes pool index (classRef name) := by
  unfold followClass
  refine Yields.congr (Yields.bind (fun constant name => constant = classRef name) follows
    (fun _ _ => Denotes.unique) fun constant _ => ?_) fun name => exists_eq_right
  cases constant with
  | classRef name => exact yields_pure rfl
  | _ => exact yields_fail nofun

theorem yields_followNameAndType
    (follows : Yields pool visiting source (follow index) (other index) (Denotes pool index)) :
    Yields pool visiting source (followNameAndType follow source index)
      (followNameAndType other source index)
      fun named => Denotes pool index (nameAndType named.1 named.2) := by
  unfold followNameAndType
  refine Yields.congr (Yields.bind (fun constant named => constant = nameAndType named.1 named.2)
    follows (fun _ _ => Denotes.unique) fun constant _ => ?_) fun named => exists_eq_right
  cases constant with
  | nameAndType name descriptor => exact yields_pure rfl
  | _ => exact yields_fail nofun

theorem yields_fieldTypeOf (descriptor : String) :
    Yields pool visiting source (fieldTypeOf source descriptor) (fieldTypeOf source descriptor)
      fun type => FieldType.ofDescriptor? descriptor = some type := by
  unfold fieldTypeOf
  split
  · next parses => exact yields_pure parses
  · next unreadable => exact yields_fail fun type parses => nomatch unreadable.symm.trans parses

theorem yields_signatureOf (descriptor : String) :
    Yields pool visiting source (signatureOf source descriptor) (signatureOf source descriptor)
      fun signature => MethodDescriptor.ofDescriptor? descriptor = some signature := by
  unfold signatureOf
  split
  · next parses => exact yields_pure parses
  · next unreadable => exact yields_fail fun type parses => nomatch unreadable.symm.trans parses

theorem text_unique (text text' : String) (first : Denotes pool index (utf8 text))
    (second : Denotes pool index (utf8 text')) : text = text' :=
  utf8.inj (first.unique second)

theorem class_unique (name name' : String) (first : Denotes pool index (classRef name))
    (second : Denotes pool index (classRef name')) : name = name' :=
  classRef.inj (first.unique second)

theorem named_unique (named named' : String × String)
    (first : Denotes pool index (nameAndType named.1 named.2))
    (second : Denotes pool index (nameAndType named'.1 named'.2)) : named = named' :=
  Prod.ext (nameAndType.inj (first.unique second)).1 (nameAndType.inj (first.unique second)).2

theorem parsed_unique {α : Type} {parsed : Option α} (value value' : α)
    (first : parsed = some value) (second : parsed = some value') : value = value' :=
  Option.some.inj (first.symm.trans second)

theorem method_unique (symbol symbol' : MethodSymbol)
    (first : Means.MeansMethod (Denotes pool) owner member symbol)
    (second : Means.MeansMethod (Denotes pool) owner member symbol') : symbol = symbol' := by
  obtain ⟨_, owned, _, named, _, parses, rfl⟩ := first
  obtain ⟨_, owned', _, named', _, parses', rfl⟩ := second
  cases class_unique _ _ owned owned'
  cases named_unique _ _ named named'
  rw [parsed_unique _ _ parses parses']

theorem yields_followMethod
    (ownerFollows : Yields pool visiting source (follow owner) (other owner) (Denotes pool owner))
    (memberFollows : Yields pool visiting source (follow member) (other member)
      (Denotes pool member)) :
    Yields pool visiting source (followMethod follow source owner member)
      (followMethod other source owner member) (Means.MeansMethod (Denotes pool) owner member) := by
  unfold followMethod
  refine (yields_followClass ownerFollows).bind _ class_unique fun ownerName _ => ?_
  refine (yields_followNameAndType memberFollows).bind _ named_unique fun named _ => ?_
  exact (yields_signatureOf named.2).map _ parsed_unique

/-- The kind of a handle decides what it may refer to. -/
theorem accepts_iff {kind : UInt8} {accepts : Constant → Bool}
    (accepting : handleAccepts kind = some accepts) (target : Constant) :
    accepts target ↔ HandleTarget kind target := by
  unfold handleAccepts at accepting
  split at accepting
  · next kinds =>
    obtain rfl := Option.some.inj accepting
    have notMethods : ¬ (5 ≤ kind ∧ kind ≤ 9) := by
      simp only [UInt8.le_iff_toNat_le, UInt8.reduceToNat] at kinds ⊢
      omega
    cases target with
    | fieldref field => exact iff_of_true rfl kinds
    | methodref method | interfaceMethodref method => exact iff_of_false nofun notMethods
    | _ => exact iff_of_false nofun id
  · next notFields =>
    split at accepting
    · next kinds =>
      obtain rfl := Option.some.inj accepting
      cases target with
      | fieldref field => exact iff_of_false nofun notFields
      | methodref method | interfaceMethodref method => exact iff_of_true rfl kinds
      | _ => exact iff_of_false nofun id
    · cases accepting

theorem not_handleTarget {kind : UInt8} (unknown : handleAccepts kind = none) (target : Constant) :
    ¬ HandleTarget kind target := by
  unfold handleAccepts at unknown
  split at unknown
  · cases unknown
  · next notFields =>
    split at unknown
    · cases unknown
    · next notMethods =>
      cases target with
      | fieldref field => exact notFields
      | methodref method | interfaceMethodref method => exact notMethods
      | _ => exact id

theorem yields_handle {kind : UInt8}
    (follows : Yields pool visiting source (follow index) (other index) (Denotes pool index)) :
    Yields pool visiting source (ofEntry follow source (.methodHandle kind index))
      (ofEntry other source (.methodHandle kind index))
      (Means (Denotes pool) (.methodHandle kind index)) := by
  unfold ofEntry
  dsimp only
  split
  · next unknown =>
    refine yields_fail ?_
    rintro constant ⟨target, -, accepted, -⟩
    exact not_handleTarget unknown target accepted
  · next accepts accepting =>
    refine follows.bind (fun target constant =>
      HandleTarget kind target ∧ constant = methodHandle kind index) (fun _ _ => Denotes.unique)
      fun target _ => ?_
    split
    · next accepted => exact yields_pure ⟨(accepts_iff accepting target).mp accepted, rfl⟩
    · next refused =>
      refine yields_fail ?_
      rintro constant ⟨accepted, -⟩
      exact refused ((accepts_iff accepting target).mpr accepted)

/-- An entry yields what it stands for, if each of its references does. -/
theorem yields_ofEntry {entry : PoolEntry} (proper : entry ≠ .empty)
    (follows : ∀ target ∈ entry.references,
      Yields pool visiting source (follow target) (other target) (Denotes pool target)) :
    Yields pool visiting source (ofEntry follow source entry) (ofEntry other source entry)
      (Means (Denotes pool) entry) := by
  cases entry with
  | empty => exact (proper rfl).elim
  | utf8 bytes =>
    unfold ofEntry
    dsimp only
    split
    · next text decodes => exact yields_pure ⟨text, decodes, rfl⟩
    · next undecoded =>
      refine yields_fail ?_
      rintro constant ⟨text, decodes, -⟩
      exact nomatch undecoded.symm.trans decodes
  | integer | float | long | double => exact yields_pure rfl
  | classRef name | string name | moduleRef name | packageRef name =>
    exact (yields_followUtf8 (follows name List.mem_cons_self)).map _ text_unique
  | nameAndType first second =>
    have firstFollows := follows first List.mem_cons_self
    have secondFollows := follows second (List.mem_cons_of_mem _ List.mem_cons_self)
    refine (yields_followUtf8 firstFollows).bind _ text_unique fun name _ => ?_
    exact (yields_followUtf8 secondFollows).map _ text_unique
  | fieldref owner member =>
    have ownerFollows := follows owner List.mem_cons_self
    have memberFollows := follows member (List.mem_cons_of_mem _ List.mem_cons_self)
    refine (yields_followClass ownerFollows).bind _ class_unique fun ownerName _ => ?_
    refine (yields_followNameAndType memberFollows).bind _ named_unique fun named _ => ?_
    exact (yields_fieldTypeOf named.2).map _ parsed_unique
  | methodref owner member | interfaceMethodref owner member =>
    have ownerFollows := follows owner List.mem_cons_self
    have memberFollows := follows member (List.mem_cons_of_mem _ List.mem_cons_self)
    exact (yields_followMethod ownerFollows memberFollows).map _ method_unique
  | methodHandle kind reference => exact yields_handle (follows reference List.mem_cons_self)
  | methodType descriptor =>
    refine (yields_followUtf8 (follows descriptor List.mem_cons_self)).bind _ text_unique
      fun text _ => ?_
    exact (yields_signatureOf text).map _ parsed_unique
  | dynamic bootstrap member =>
    refine (yields_followNameAndType (follows member List.mem_cons_self)).bind _ named_unique
      fun named _ => ?_
    exact (yields_fieldTypeOf named.2).map _ parsed_unique
  | invokeDynamic bootstrap member =>
    refine (yields_followNameAndType (follows member List.mem_cons_self)).bind _ named_unique
      fun named _ => ?_
    exact (yields_signatureOf named.2).map _ parsed_unique

end References

/-! ## Notes and marks -/

theorem entryAt?_eq_some {entry : PoolEntry} (found : entryAt? pool index = some entry) :
    index ≠ 0 ∧ pool[index.toNat - 1]? = some entry := by
  unfold entryAt? at found
  split at found
  · cases found
  · next position numbered =>
    refine ⟨?_, by rw [numbered]; exact found⟩
    rintro rfl
    cases numbered

theorem entryFor_eq_ok {entry : PoolEntry} (found : entryFor pool index = .ok entry) :
    entryAt? pool index = some entry ∧ entry ≠ .empty := by
  unfold entryFor at found
  split at found
  · cases found
  · split at found
    · cases found
    · cases found
    · next proper entryFound =>
      cases found
      exact ⟨entryFound, fun filler => proper (filler ▸ rfl)⟩

theorem not_namesEntry {fault : ConstantFault} (missing : entryFor pool index = .error fault) :
    ¬ NamesEntry pool index := by
  rintro ⟨entry, found, proper⟩
  unfold entryFor at missing
  rw [if_neg (entryAt?_eq_some found).1, found] at missing
  cases entry with
  | empty => exact proper rfl
  | _ => cases missing

end Constant

namespace Resolution

variable {pool : Array PoolEntry} {visiting : List UInt16} {index : UInt16} {constant : Constant}
  {resolution : Resolution}

theorem Sound.start (pool : Array PoolEntry) : (start pool.size).Sound pool [] where
  size := Array.size_replicate
  found index constant _ noted := by
    unfold found? Resolution.start at noted
    rw [Array.getD_eq_getD_getElem?, Array.getElem?_replicate] at noted
    split at noted <;> cases noted
  visiting := rfl

theorem Sound.visit (sound : resolution.Sound pool visiting) (index : UInt16) :
    (resolution.visit index).Sound pool (index :: visiting) where
  size := sound.size
  found := sound.found
  visiting := congrArg (index :: ·) sound.visiting

/-- After an entry is resolved, its meaning is noted and the other notes are as before. -/
theorem found?_settle (position : Nat) (inside : index.toNat - 1 < resolution.found.size) :
    (resolution.settle index (index.toNat - 1) constant).found? position =
      if position = index.toNat - 1 then some constant else resolution.found? position := by
  unfold found? settle
  rw [Array.getD_eq_getD_getElem?, Array.getD_eq_getD_getElem?, Array.getElem?_setIfInBounds]
  split
  · next same => rw [if_pos same.symm, Option.getD_some]
  · next other => rw [if_neg fun same => other same.symm]

theorem Sound.inside (sound : resolution.Sound pool visiting)
    (denotes : Denotes pool index constant) : index.toNat - 1 < resolution.found.size := by
  obtain ⟨entry, found, -⟩ := denotes.namesEntry
  obtain ⟨inside, -⟩ := Array.getElem?_eq_some_iff.mp (entryAt?_eq_some found).2
  exact sound.size ▸ inside

theorem Sound.settle (sound : resolution.Sound pool (index :: visiting))
    (denotes : Denotes pool index constant) :
    (resolution.settle index (index.toNat - 1) constant).Sound pool visiting where
  size := Array.size_setIfInBounds.trans sound.size
  found index' constant' proper noted := by
    rw [found?_settle _ (sound.inside denotes)] at noted
    split at noted
    · next same =>
      obtain ⟨entry, found, -⟩ := denotes.namesEntry
      have positive : index.toNat ≠ 0 := fun zero =>
        (entryAt?_eq_some found).1 (UInt16.toNat_inj.mp zero)
      have positive' : index'.toNat ≠ 0 := fun zero => proper (UInt16.toNat_inj.mp zero)
      obtain rfl : index' = index := UInt16.toNat_inj.mp (by omega)
      cases noted
      exact denotes
    · exact sound.found index' constant' proper noted
  visiting := by
    unfold Resolution.settle
    rw [sound.visiting]
    exact List.erase_cons_head index visiting

theorem Sound.extends_settle (sound : resolution.Sound pool (index :: visiting))
    (denotes : Denotes pool index constant) :
    resolution.Extends (resolution.settle index (index.toNat - 1) constant) := by
  intro position constant' noted
  rw [found?_settle _ (sound.inside denotes)]
  split
  · next same =>
    obtain ⟨entry, found, -⟩ := denotes.namesEntry
    have earlier := sound.found index constant' (entryAt?_eq_some found).1 (same ▸ noted)
    rw [denotes.unique earlier]
  · exact noted

end Resolution

namespace Constant

open Resolving (Yields yields_pure yields_fail bind_of_ok bind_of_error)

variable {pool : Array PoolEntry} {visiting : List UInt16} {source index : UInt16}

theorem resolveOnce_of_found {action : Resolving Constant} {before : Resolution} {constant : Constant}
    (noted : before.found? (index.toNat - 1) = some constant) :
    resolveOnce index action before = .ok (constant, before) := by
  unfold resolveOnce
  rw [bind_of_ok rfl, noted]
  rfl

theorem resolveOnce_of_visiting {action : Resolving Constant} {before : Resolution}
    (unknown : before.found? (index.toNat - 1) = none) (marked : index ∈ before.visiting) :
    resolveOnce index action before = .error (.unresolvedConstant index .cycle) := by
  unfold resolveOnce
  rw [bind_of_ok rfl, unknown]
  dsimp only
  rw [bind_of_ok rfl, if_pos (List.contains_iff_mem.mpr marked)]
  rfl

/-- An entry that is met for the first time is marked, resolved and noted. -/
theorem resolveOnce_of_fresh {action : Resolving Constant} {before : Resolution}
    (unknown : before.found? (index.toNat - 1) = none) (unmarked : index ∉ before.visiting) :
    resolveOnce index action before =
      (do
        let constant ← action
        modify (Resolution.settle index (index.toNat - 1) constant)
        return constant : Resolving Constant) (before.visit index) := by
  unfold resolveOnce
  rw [bind_of_ok rfl, unknown]
  dsimp only
  rw [bind_of_ok rfl, if_neg fun marked => unmarked (List.contains_iff_mem.mp marked)]
  rfl

/-- Resolving an entry once yields what it denotes, if resolving it does so as soon as it is marked, and
if nothing is denoted by entries that are marked already. -/
theorem yields_resolveOnce {action other : Resolving Constant}
    (circular : index ∈ visiting → ∀ constant, ¬ Denotes pool index constant)
    (proper : index ≠ 0)
    (fresh : index ∉ visiting →
      Yields pool (index :: visiting) index action other (Denotes pool index)) :
    Yields pool visiting index (resolveOnce index action) (resolveOnce index other) (Denotes pool index) := by
  intro before sound
  cases noted : before.found? (index.toNat - 1) with
  | some constant =>
    rw [resolveOnce_of_found noted, resolveOnce_of_found noted]
    exact ⟨rfl, .inl ⟨constant, before, rfl, sound.found index constant proper noted, sound,
      fun _ _ => id⟩⟩
  | none =>
    by_cases marked : index ∈ visiting
    · have markedBefore : index ∈ before.visiting := sound.visiting ▸ marked
      rw [resolveOnce_of_visiting noted markedBefore, resolveOnce_of_visiting noted markedBefore]
      exact ⟨rfl, .inr ⟨.cycle, rfl, circular marked⟩⟩
    · have unmarked : index ∉ before.visiting := sound.visiting ▸ marked
      rw [resolveOnce_of_fresh noted unmarked, resolveOnce_of_fresh noted unmarked]
      obtain ⟨same, ⟨constant, after, ended, denotes, soundAfter, extended⟩ |
        ⟨fault, ended, nothing⟩⟩ := fresh marked (before.visit index) (sound.visit index)
      · rw [bind_of_ok ended, bind_of_ok (same.trans ended)]
        exact ⟨rfl, .inl ⟨constant, _, rfl, denotes, soundAfter.settle denotes,
          fun position value noted =>
            soundAfter.extends_settle denotes _ _ (extended _ _ noted)⟩⟩
      · rw [bind_of_error ended, bind_of_error (same.trans ended)]
        exact ⟨rfl, .inr ⟨fault, rfl, nothing⟩⟩

/-- An entry that was resolved is noted. -/
theorem resolveOnce_notes {action : Resolving Constant} {before after : Resolution}
    {constant : Constant} (ended : resolveOnce index action before = .ok (constant, after))
    (inside : index.toNat - 1 < after.found.size) :
    after.found? (index.toNat - 1) = some constant := by
  cases noted : before.found? (index.toNat - 1) with
  | some known =>
    rw [resolveOnce_of_found noted] at ended
    cases ended
    exact noted
  | none =>
    by_cases marked : index ∈ before.visiting
    · rw [resolveOnce_of_visiting noted marked] at ended
      cases ended
    · rw [resolveOnce_of_fresh noted marked] at ended
      cases acted : action (before.visit index) with
      | error error =>
        rw [bind_of_error acted] at ended
        cases ended
      | ok result =>
        rw [bind_of_ok acted] at ended
        cases ended
        rw [Resolution.found?_settle _ (Array.size_setIfInBounds ▸ inside), if_pos rfl]

/-! ## Along references -/

/-- The entries that are marked while an index is resolved: they are different ones, and references
lead from each of them to the index. -/
structure Marks (pool : Array PoolEntry) (visiting : List UInt16) (index : UInt16) : Prop where
  nodup : visiting.Nodup
  named : ∀ earlier ∈ visiting, NamesEntry pool earlier
  leads : ∀ earlier ∈ visiting, Relation.TransGen (RefersTo pool) earlier index

theorem Marks.nil : Marks pool [] index where
  nodup := List.nodup_nil
  named := nofun
  leads := nofun

theorem Marks.cons {entry : PoolEntry} {target : UInt16} (marks : Marks pool visiting index)
    (unmarked : index ∉ visiting) (found : entryAt? pool index = some entry)
    (proper : entry ≠ .empty) (refers : target ∈ entry.references) :
    Marks pool (index :: visiting) target where
  nodup := List.nodup_cons.mpr ⟨unmarked, marks.nodup⟩
  named := List.forall_mem_cons.mpr ⟨⟨entry, found, proper⟩, marks.named⟩
  leads := by
    have step : RefersTo pool index target := ⟨entry, found, refers⟩
    exact List.forall_mem_cons.mpr ⟨.single step, fun earlier marked =>
      (marks.leads earlier marked).tail step⟩

/-- There are no more marks than entries. -/
theorem Marks.length_le (marks : Marks pool visiting index) : visiting.length ≤ pool.size := by
  have positioned : ∀ earlier ∈ visiting, earlier.toNat ≠ 0 ∧ earlier.toNat - 1 < pool.size := by
    intro earlier marked
    obtain ⟨entry, found, -⟩ := marks.named earlier marked
    obtain ⟨proper, found⟩ := entryAt?_eq_some found
    exact ⟨fun zero => proper (UInt16.toNat_inj.mp zero), (Array.getElem?_eq_some_iff.mp found).1⟩
  have different : (visiting.map (·.toNat - 1)).Nodup := by
    refine (List.nodup_map_iff_inj_on marks.nodup).mpr ?_
    intro first firstMarked second secondMarked same
    have := positioned first firstMarked
    have := positioned second secondMarked
    exact UInt16.toNat_inj.mp (by omega)
  have within : visiting.map (·.toNat - 1) ⊆ List.range pool.size := by
    intro position member
    obtain ⟨earlier, marked, rfl⟩ := List.mem_map.mp member
    exact List.mem_range.mpr (positioned earlier marked).2
  calc visiting.length = (visiting.map (·.toNat - 1)).length := (List.length_map _).symm
    _ ≤ (List.range pool.size).length := (different.subperm within).length_le
    _ = pool.size := List.length_range

/-- Resolving an entry yields what it denotes, and any depth that is greater than the number of
entries that are not marked does for it. -/
theorem yields_resolve {depth depth' : Nat} (marks : Marks pool visiting index)
    (deep : pool.size < depth + visiting.length) (deep' : pool.size < depth' + visiting.length) :
    Yields pool visiting index (resolve pool depth index) (resolve pool depth' index)
      (Denotes pool index) := by
  induction depth generalizing depth' visiting index with
  | zero =>
    have := marks.length_le
    omega
  | succ depth ih =>
    cases depth' with
    | zero =>
      have := marks.length_le
      omega
    | succ depth' =>
      unfold resolve
      cases entryFound : entryFor pool index with
      | error fault =>
        exact yields_fail fun constant denotes => not_namesEntry entryFound denotes.namesEntry
      | ok entry =>
        obtain ⟨found, proper⟩ := entryFor_eq_ok entryFound
        refine yields_resolveOnce (fun marked _ => not_denotes_of_cycle (marks.leads index marked))
          (entryAt?_eq_some found).1 fun unmarked => ?_
        refine Yields.congr (yields_ofEntry proper fun target refers => ?_)
          fun constant => (denotes_iff found).symm
        have deeper : pool.size < depth + (index :: visiting).length := by
          rw [List.length_cons]; omega
        have deeper' : pool.size < depth' + (index :: visiting).length := by
          rw [List.length_cons]; omega
        exact (ih (marks.cons unmarked found proper refers) deeper deeper').onBehalf

theorem resolve_notes {depth : Nat} {before after : Resolution} {constant : Constant}
    (ended : resolve pool depth index before = .ok (constant, after))
    (inside : index.toNat - 1 < after.found.size) :
    after.found? (index.toNat - 1) = some constant := by
  cases depth with
  | zero => cases ended
  | succ depth =>
    unfold resolve at ended
    cases entryFound : entryFor pool index with
    | error fault =>
      rw [entryFound] at ended
      cases ended
    | ok entry =>
      rw [entryFound] at ended
      exact resolveOnce_notes ended inside

end Constant

end JavaMachine
