import JavaMachine.Proofs.Constant.Resolution

/-! # A pool in its order

The entries of a pool are resolved one after another, on the notes of those before. Either every
entry has a meaning, which is found; or the first one that has none is reported, whatever entry it
refers to is at fault. How deep references may be followed does not matter, as long as it is deeper
than the pool is long. -/

namespace JavaMachine

open Constant

/-- The notes are right, no entry is being resolved, and the first entries are all noted. -/
structure Resolution.Covers (pool : Array PoolEntry) (count : Nat) (resolution : Resolution) :
    Prop where
  sound : resolution.Sound pool []
  noted : ∀ index, NamesEntry pool index → index.toNat ≤ count →
    ∃ constant, resolution.found? (index.toNat - 1) = some constant

namespace Constant

open Resolving (Yields yields_pure bind_of_ok bind_of_error)

/-- The first entry of a pool, fillers apart, that has no meaning. -/
structure FirstUnresolvable (pool : Array PoolEntry) (index : UInt16) : Prop where
  named : NamesEntry pool index
  unresolvable : ¬ Resolvable pool index
  first : ∀ earlier < index, NamesEntry pool earlier → Resolvable pool earlier

/-- One constant for each entry: a filler for a filler, and what it denotes for any other entry. -/
structure Meanings (pool : Array PoolEntry) (constants : Array Constant) : Prop where
  size : constants.size = pool.size
  filler : ∀ position < pool.size,
    constants[position]? = some .empty ↔ pool[position]? = some .empty
  denoted : ∀ index, NamesEntry pool index →
    ∃ constant, constants[index.toNat - 1]? = some constant ∧ Denotes pool index constant

variable {pool : Array PoolEntry} {position depth depth' : Nat}

/-! ## One entry after another -/

theorem toNat_index (small : pool.size ≤ 65534) (inside : position < pool.size) :
    (UInt16.ofNat (position + 1)).toNat = position + 1 := by
  rw [UInt16.toNat_ofNat']
  omega

theorem entryAt?_index (small : pool.size ≤ 65534) (inside : position < pool.size) :
    entryAt? pool (UInt16.ofNat (position + 1)) = pool[position]? := by
  unfold entryAt?
  rw [toNat_index small inside]

theorem resolveAt_of_entry {entry : PoolEntry} (depth : Nat) (here : pool[position]? = some entry)
    (proper : entry ≠ .empty) :
    resolveAt pool depth position =
      resolve pool depth (UInt16.ofNat (position + 1)) >>= fun _ => pure () := by
  unfold resolveAt
  split
  · next outside => cases here.symm.trans outside
  · next filler => exact absurd (Option.some.inj (here.symm.trans filler)) proper
  · rfl

/-- What is done for an entry yields something exactly if the entry has a meaning or needs none. -/
theorem yields_resolveAt (small : pool.size ≤ 65534) (inside : position < pool.size)
    (deep : pool.size < depth) (deep' : pool.size < depth') :
    Yields pool [] (UInt16.ofNat (position + 1)) (resolveAt pool depth position)
      (resolveAt pool depth' position)
      fun _ => NamesEntry pool (UInt16.ofNat (position + 1)) →
        ∃ constant, Denotes pool (UInt16.ofNat (position + 1)) constant := by
  have found := entryAt?_index small inside
  obtain ⟨entry, here⟩ : ∃ entry, pool[position]? = some entry :=
    ⟨_, Array.getElem?_eq_getElem inside⟩
  by_cases proper : entry = .empty
  · unfold resolveAt
    rw [here, proper]
    refine yields_pure ?_
    rintro ⟨entry', named, proper'⟩
    cases named.symm.trans (found.trans here)
    exact absurd proper proper'
  · rw [resolveAt_of_entry depth here proper, resolveAt_of_entry depth' here proper]
    refine Yields.congr (Yields.bind (fun _ _ => True) (yields_resolve Marks.nil deep deep')
      (fun _ _ => Denotes.unique) fun _ _ => yields_pure trivial) fun _ => ?_
    exact ⟨fun ⟨constant, denotes, _⟩ _ => ⟨constant, denotes⟩,
      fun denoted => (denoted ⟨entry, found.trans here, proper⟩).imp fun _ denotes =>
        ⟨denotes, trivial⟩⟩

theorem resolveAt_notes {before after : Resolution} (small : pool.size ≤ 65534)
    (inside : position < pool.size) (named : NamesEntry pool (UInt16.ofNat (position + 1)))
    (ended : resolveAt pool depth position before = .ok ((), after))
    (size : after.found.size = pool.size) :
    ∃ constant, after.found? ((UInt16.ofNat (position + 1)).toNat - 1) = some constant := by
  obtain ⟨entry, found, proper⟩ := named
  have here := (entryAt?_index small inside).symm.trans found
  rw [resolveAt_of_entry depth here proper] at ended
  cases resolved : resolve pool depth (UInt16.ofNat (position + 1)) before with
  | error error =>
    rw [bind_of_error resolved] at ended
    cases ended
  | ok result =>
    rw [bind_of_ok resolved] at ended
    cases ended
    refine ⟨result.1, resolve_notes resolved ?_⟩
    rw [size, toNat_index small inside]
    exact inside

theorem covers_denotes {resolution : Resolution} {index : UInt16} {count : Nat}
    (covers : resolution.Covers pool count) (named : NamesEntry pool index)
    (early : index.toNat ≤ count) :
    ∃ constant, resolution.found? (index.toNat - 1) = some constant ∧
      Denotes pool index constant := by
  obtain ⟨constant, noted⟩ := covers.noted index named early
  obtain ⟨entry, found, -⟩ := named
  exact ⟨constant, noted,
    covers.sound.found index constant (entryAt?_eq_some found).1 noted⟩

theorem covers_start (pool : Array PoolEntry) : (Resolution.start pool.size).Covers pool 0 where
  sound := .start pool
  noted index named early := by
    obtain ⟨entry, found, -⟩ := named
    exact absurd (UInt16.toNat_inj.mp (Nat.le_zero.mp early)) (entryAt?_eq_some found).1

/-- One entry more is noted, unless it is the first one that has no meaning. -/
theorem covers_resolveAt {before : Resolution} (small : pool.size ≤ 65534)
    (inside : position < pool.size) (deep : pool.size < depth) (deep' : pool.size < depth')
    (covers : before.Covers pool position) :
    resolveAt pool depth' position before = resolveAt pool depth position before ∧
    ((∃ after, resolveAt pool depth position before = .ok ((), after) ∧
      after.Covers pool (position + 1)) ∨
    ∃ index fault, resolveAt pool depth position before = .error (.unresolvedConstant index fault) ∧
      FirstUnresolvable pool index) := by
  have number := toNat_index small inside
  have last {index : UInt16} (early : index.toNat ≤ position + 1)
      (late : ¬ index.toNat ≤ position) : index = UInt16.ofNat (position + 1) :=
    UInt16.toNat_inj.mp (by omega)
  obtain ⟨same, ⟨_, after, ended, -, sound, extended⟩ | ⟨fault, ended, nothing⟩⟩ :=
    yields_resolveAt small inside deep deep' before covers.sound
  · refine ⟨same, .inl ⟨after, ended, sound, fun index named early => ?_⟩⟩
    by_cases before : index.toNat ≤ position
    · obtain ⟨constant, noted⟩ := covers.noted index named before
      exact ⟨constant, extended _ _ noted⟩
    · cases last early before
      exact resolveAt_notes small inside named ended sound.size
  · obtain ⟨named, noMeaning⟩ := Classical.not_imp.mp (nothing ())
    refine ⟨same, .inr ⟨_, fault, ended, named, mt resolvable_iff.mp noMeaning, ?_⟩⟩
    intro earlier less namedEarlier
    have := UInt16.lt_iff_toNat_lt.mp less
    obtain ⟨constant, -, denotes⟩ := covers_denotes covers namedEarlier (by omega)
    exact denotes.resolvable

/-- The first entries are all noted, unless one of them is the first one that has no meaning. -/
theorem covers_run {count : Nat} (small : pool.size ≤ 65534) (inside : count ≤ pool.size)
    (deep : pool.size < depth) (deep' : pool.size < depth') :
    forM (List.range count) (resolveAt pool depth') (.start pool.size) =
      forM (List.range count) (resolveAt pool depth) (.start pool.size) ∧
    ((∃ after, forM (List.range count) (resolveAt pool depth) (.start pool.size) =
      .ok ((), after) ∧ after.Covers pool count) ∨
    ∃ index fault, forM (List.range count) (resolveAt pool depth) (.start pool.size) =
      .error (.unresolvedConstant index fault) ∧ FirstUnresolvable pool index) := by
  induction count with
  | zero => exact ⟨rfl, .inl ⟨_, rfl, covers_start pool⟩⟩
  | succ count ih =>
    obtain ⟨same, run⟩ := ih (by omega)
    rw [List.range_succ, List.forM_append, List.forM_append]
    rcases run with ⟨middle, ended, covers⟩ | ⟨index, fault, ended, first⟩
    · rw [bind_of_ok ended, bind_of_ok (same.trans ended)]
      simp only [List.forM_cons, List.forM_nil, bind_pure_unit]
      exact covers_resolveAt small inside deep deep' covers
    · rw [bind_of_error ended, bind_of_error (same.trans ended)]
      exact ⟨rfl, .inr ⟨index, fault, rfl, first⟩⟩

/-! ## The whole pool -/

/-- Nothing is noted for a filler. -/
theorem sound_filler {resolution : Resolution} {visiting : List UInt16}
    (sound : resolution.Sound pool visiting) (small : pool.size ≤ 65534)
    (inside : position < pool.size) (filler : pool[position]? = some .empty) :
    resolution.found? position = none := by
  refine Option.eq_none_iff_forall_ne_some.mpr fun constant noted => ?_
  have number := toNat_index small inside
  have proper : UInt16.ofNat (position + 1) ≠ 0 := by
    intro zero
    rw [zero] at number
    cases number
  have here : (UInt16.ofNat (position + 1)).toNat - 1 = position := by omega
  obtain ⟨entry, found, noFiller⟩ :=
    (sound.found _ constant proper (here.symm ▸ noted)).namesEntry
  cases found.symm.trans ((entryAt?_index small inside).trans filler)
  exact noFiller rfl

/-- All notes together are the meanings of the entries. -/
theorem covers_meanings {resolution : Resolution} (small : pool.size ≤ 65534)
    (covers : resolution.Covers pool pool.size) :
    Meanings pool (resolution.found.map (·.getD .empty)) := by
  have size : resolution.found.size = pool.size := covers.sound.size
  have meaning {position : Nat} (inside : position < pool.size) :
      (resolution.found.map (·.getD .empty))[position]? =
        some ((resolution.found? position).getD .empty) := by
    unfold Resolution.found?
    rw [Array.getElem?_map, Array.getD_eq_getD_getElem?,
      Array.getElem?_eq_getElem (size ▸ inside), Option.map_some, Option.getD_some]
  refine ⟨Array.size_map.trans size, fun position inside => ?_, fun index named => ?_⟩
  · have found := entryAt?_index small inside
    have number := toNat_index small inside
    obtain ⟨entry, here⟩ : ∃ entry, pool[position]? = some entry :=
      ⟨_, Array.getElem?_eq_getElem inside⟩
    rw [meaning inside]
    by_cases proper : entry = .empty
    · have filler := here.trans (congrArg some proper)
      rw [sound_filler covers.sound small inside filler]
      exact iff_of_true rfl filler
    · obtain ⟨constant, noted, denotes⟩ :=
        covers_denotes covers ⟨entry, found.trans here, proper⟩ (by omega)
      rw [number, Nat.add_sub_cancel] at noted
      rw [noted, here]
      exact iff_of_false (mt Option.some.inj denotes.ne_empty) (mt Option.some.inj proper)
  · obtain ⟨entry, found, proper⟩ := named
    obtain ⟨nonzero, here⟩ := entryAt?_eq_some found
    obtain ⟨inside, -⟩ := Array.getElem?_eq_some_iff.mp here
    obtain ⟨constant, noted, denotes⟩ :=
      covers_denotes covers ⟨entry, found, proper⟩ (by omega)
    refine ⟨constant, ?_, denotes⟩
    rw [meaning inside, noted, Option.getD_some]

/-- At any depth beyond the size of a pool, its resolution ends alike. -/
theorem resolveWithin_ends (small : pool.size ≤ 65534) (deep : pool.size < depth)
    (deep' : pool.size < depth') :
    resolveWithin pool depth' = resolveWithin pool depth ∧
    ((∃ constants, resolveWithin pool depth = .ok constants ∧ Meanings pool constants) ∨
    ∃ index fault, resolveWithin pool depth = .error (.unresolvedConstant index fault) ∧
      FirstUnresolvable pool index) := by
  unfold resolveWithin
  rw [List.forM_eq_forM]
  obtain ⟨same, ⟨after, ended, covers⟩ | ⟨index, fault, ended, first⟩⟩ :=
    covers_run small le_rfl deep deep'
  · rw [StateT.run, StateT.run, same, ended]
    exact ⟨rfl, .inl ⟨_, rfl, covers_meanings small covers⟩⟩
  · rw [StateT.run, StateT.run, same, ended]
    exact ⟨rfl, .inr ⟨index, fault, rfl, first⟩⟩

theorem meanings_of_resolvePool {constants : Array Constant} (small : pool.size ≤ 65534)
    (resolved : resolvePool pool = .ok constants) : Meanings pool constants := by
  obtain ⟨-, ⟨found, ended, meanings⟩ | ⟨index, fault, ended, -⟩⟩ :=
    resolveWithin_ends small (Nat.lt_succ_self pool.size) (Nat.lt_succ_self pool.size)
  · cases ended.symm.trans resolved
    exact meanings
  · cases ended.symm.trans resolved

/-- **A pool is resolved** exactly if every entry of it has a meaning, fillers apart. What is found
then are the meanings of its entries, and otherwise the error is one of the first entry that has no
meaning. References are never followed so deep that a bound beyond the size of the pool matters. -/
theorem resolvePool_ends (pool : Array PoolEntry) (small : pool.size ≤ 65534) :
    ((∃ constants, resolvePool pool = .ok constants) ↔
      ∀ index, NamesEntry pool index → Resolvable pool index) ∧
    (∀ constants, resolvePool pool = .ok constants → Meanings pool constants) ∧
    (∀ error, resolvePool pool = .error error →
      ∃ index fault, error = .unresolvedConstant index fault ∧ FirstUnresolvable pool index) ∧
    ∀ depth, pool.size < depth → resolveWithin pool depth = resolvePool pool := by
  have alike (depth : Nat) (deep : pool.size < depth) :=
    (resolveWithin_ends small (Nat.lt_succ_self pool.size) deep).1
  obtain ⟨-, ends⟩ :=
    resolveWithin_ends small (Nat.lt_succ_self pool.size) (Nat.lt_succ_self pool.size)
  rcases ends with ⟨constants, ended, meanings⟩ | ⟨index, fault, ended, first⟩
  · refine ⟨iff_of_true ⟨constants, ended⟩ fun index named => ?_, fun constants' ended' => ?_,
      fun error failed => (nomatch ended.symm.trans failed), alike⟩
    · obtain ⟨constant, -, denotes⟩ := meanings.denoted index named
      exact denotes.resolvable
    · cases ended.symm.trans ended'
      exact meanings
  · refine ⟨iff_of_false (fun ⟨constants, ended'⟩ => nomatch ended.symm.trans ended')
      fun all => first.unresolvable (all index first.named),
      fun constants ended' => (nomatch ended.symm.trans ended'), fun error failed => ?_, alike⟩
    cases ended.symm.trans failed
    exact ⟨index, fault, rfl, first⟩

/-- A method and a text in front of the entries that they share. -/
theorem resolvePool_ends_shared :
    (#[.methodref 3 4, .string 5, .classRef 5, .nameAndType 5 6, .utf8 [70], .utf8 [40, 41, 74]] :
      Array PoolEntry).size ≤ 65534 ∧
    ∃ constants, resolvePool #[.methodref 3 4, .string 5, .classRef 5, .nameAndType 5 6, .utf8 [70],
      .utf8 [40, 41, 74]] = .ok constants ∧
      Meanings #[.methodref 3 4, .string 5, .classRef 5, .nameAndType 5 6, .utf8 [70],
        .utf8 [40, 41, 74]] constants := by
  obtain ⟨-, meanings, -⟩ := resolvePool_ends #[.methodref 3 4, .string 5, .classRef 5,
    .nameAndType 5 6, .utf8 [70], .utf8 [40, 41, 74]] (by decide)
  have resolved : resolvePool #[.methodref 3 4, .string 5, .classRef 5, .nameAndType 5 6,
      .utf8 [70], .utf8 [40, 41, 74]] =
      .ok #[.methodref ⟨"F", "F", "()J", ⟨[], some .long⟩⟩, .string "F", .classRef "F",
        .nameAndType "F" "()J", .utf8 "F", .utf8 "()J"] := by cbv
  exact ⟨by decide, _, resolved, meanings _ resolved⟩

end Constant

end JavaMachine
