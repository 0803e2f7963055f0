import JavaMachine.Proofs.Class.Lockstep

/-! # Enough depth

Finitely many names have a file that defines a class of that name. While such a class is being
loaded its name is taken, and between two of them lies at most an array, so that the depth with
which the loader starts is never used up (`Loader.Supply.descends`,
`Loader.Supply.enough_start`). -/

namespace JavaMachine

/-! ## How many classes a source defines -/

namespace ClassSource

/-- Whether a source has, under a name, the file of a class of that name. -/
def Gives (source : ClassSource) (name : String) : Prop :=
  ∃ bytes file pool, source.find name = .ok (some bytes) ∧ ClassFile.read bytes = .ok file ∧
    Constant.resolvePool file.pool = .ok pool ∧ Link.classNameAt pool file.thisClass = .ok name

/-- Whether a source defines no more classes than its size. -/
def Bounded (source : ClassSource) : Prop :=
  ∃ names : List String, names.length ≤ source.size ∧ ∀ name, source.Gives name → name ∈ names

/-- The name of the class in a file, if it can be read. -/
def ownName (bytes : List UInt8) : Except Error String := do
  let file ← (ClassFile.read bytes).mapError .malformedClassFile
  let pool ← Constant.resolvePool file.pool
  Link.classNameAt pool file.thisClass

theorem Gives.ownName {source : ClassSource} {name : String} (gives : source.Gives name) :
    ∃ bytes, source.find name = .ok (some bytes) ∧ ownName bytes = .ok name := by
  obtain ⟨bytes, file, pool, found, read, resolved, named⟩ := gives
  refine ⟨bytes, found, ?_⟩
  simp only [ClassSource.ownName, read, Except.mapError, Except.bind_eq_ok_iff]
  exact ⟨file, rfl, pool, resolved, named⟩

/-- A source whose files are listed is bounded by the length of the list. -/
theorem bounded_of_files {source : ClassSource} (files : List (List UInt8))
    (short : files.length ≤ source.size)
    (listed : ∀ name bytes, source.find name = .ok (some bytes) → bytes ∈ files) :
    source.Bounded := by
  refine ⟨files.filterMap fun bytes => (ownName bytes).toOption, ?_, ?_⟩
  · exact (List.length_filterMap_le _ _).trans short
  · intro name gives
    obtain ⟨bytes, found, named⟩ := gives.ownName
    refine List.mem_filterMap.mpr ⟨bytes, listed name bytes found, ?_⟩
    rw [named]
    rfl

theorem bounded_memory (classes : List (String × List UInt8)) : (memory classes).Bounded := by
  refine bounded_of_files (classes.map Prod.snd) (by simp [size]) ?_
  intro name bytes found
  obtain ⟨before, after, rfl, -⟩ := List.lookup_eq_some_iff.mp (Except.ok.inj found)
  exact List.mem_map_of_mem (List.mem_append_right before List.mem_cons_self)

theorem mem_files_of_file? {tree : FileTree} {path : List String} {bytes : List UInt8}
    (found : tree.file? path = some bytes) : bytes ∈ tree.files.map Prod.snd := by
  obtain ⟨entry, chosen, rfl⟩ := Option.map_eq_some_iff.mp found
  exact List.mem_map_of_mem (List.mem_reverse.mp (List.mem_of_find?_eq_some chosen))

theorem mem_files_of_walk {tree : FileTree} {parts directory : List String} {bytes : List UInt8}
    (found : tree.walk directory parts = .found bytes) : bytes ∈ tree.files.map Prod.snd := by
  fun_induction FileTree.walk tree directory parts with
  | case1 | case4 | case6 | case8 => cases found
  | case2 _ _ _ _ ih | case3 _ _ _ _ _ ih | case7 _ _ _ _ _ _ _ _ _ ih => exact ih found
  | case5 directory part rest _ _ _ path bytes' present last =>
    obtain rfl := FileContent.found.inj found
    exact mem_files_of_file? present

theorem bounded_directory (tree : FileTree) (base : String) : (directory tree base).Bounded := by
  refine bounded_of_files (tree.files.map Prod.snd) (by simp [size]) ?_
  intro name bytes found
  simp only [find] at found
  split at found
  · next bytes' read =>
    obtain rfl := Option.some.inj (Except.ok.inj found)
    unfold FileTree.read at read
    split at read
    · cases read
    · exact mem_files_of_walk read
  · cases found
  · cases found

theorem bounded_archive (content : Archive) : (archive content).Bounded := by
  refine bounded_of_files (content.entries.filterMap content.content?)
    (List.length_filterMap_le _ _) ?_
  intro name bytes found
  simp only [find] at found
  split at found
  · cases found
  · next entry present =>
    split at found
    · next bytes' read =>
      obtain rfl := Option.some.inj (Except.ok.inj found)
      refine List.mem_filterMap.mpr ⟨entry, ?_, read⟩
      exact List.mem_reverse.mp (List.mem_of_find?_eq_some present)
    · cases found

/-- Only of what the host finds it is not clear that it is bounded. -/
theorem bounded_of_hosts {sources : List ClassSource}
    (hosts : ∀ lookup size, host lookup size ∈ sources → (host lookup size).Bounded) :
    ∀ source ∈ sources, source.Bounded := by
  intro source member
  cases source with
  | memory classes => exact bounded_memory classes
  | host lookup size => exact hosts lookup size member
  | directory tree base => exact bounded_directory tree base
  | archive content => exact bounded_archive content

end ClassSource

namespace Loader

variable {sources : List ClassSource}

/-! ## How deep classes need each other -/

/-- The names in a list are all that the sources define classes for, and the loader counts on at
least as many. -/
structure Supply (sources : List ClassSource) (names : List String) : Prop where
  short : 2 * (names.length + 2) ≤ depthBound sources
  complete {name : String} {file : ClassFile} {pool : Array Constant}
    (described : Describes sources name file pool)
    (named : Link.classNameAt pool file.thisClass = .ok name) : name ∈ names

theorem find_of_findClass {name : String} {bytes : List UInt8}
    (found : findClass name sources = .ok bytes) :
    ∃ skipped source rest, sources = skipped ++ source :: rest ∧
      (∀ other ∈ skipped, other.find name = .ok none) ∧ source.find name = .ok (some bytes) := by
  induction sources with
  | nil => cases found
  | cons source rest ih =>
    rw [findClass, Except.bind_eq_ok_iff] at found
    obtain ⟨result, held, found⟩ := found
    cases result with
    | some bytes' =>
      obtain rfl := Except.ok.inj found
      exact ⟨[], source, rest, rfl, nofun, held⟩
    | none =>
      obtain ⟨skipped, source', rest', rfl, passed, held'⟩ := ih found
      exact ⟨source :: skipped, source', rest', rfl, List.forall_mem_cons.mpr ⟨held, passed⟩, held'⟩

theorem exists_supply (bounded : ∀ source ∈ sources, source.Bounded) :
    ∃ names, Supply sources names := by
  have listed : ∃ names : List String,
      names.length ≤ sources.foldr (fun source size => source.size + size) 0 ∧
        ∀ source ∈ sources, ∀ name, source.Gives name → name ∈ names := by
    induction sources with
    | nil => exact ⟨[], Nat.le_refl 0, nofun⟩
    | cons source rest ih =>
      obtain ⟨own, short, complete⟩ := bounded source List.mem_cons_self
      obtain ⟨names, shortToo, completeToo⟩ :=
        ih fun source member => bounded source (List.mem_cons_of_mem _ member)
      refine ⟨own ++ names, ?_, ?_⟩
      · rw [List.length_append, List.foldr_cons]
        omega
      · intro other member name gives
        rcases List.mem_cons.mp member with rfl | member
        · exact List.mem_append_left names (complete name gives)
        · exact List.mem_append_right own (completeToo other member name gives)
  obtain ⟨names, short, complete⟩ := listed
  refine ⟨names, ?_, ?_⟩
  · rw [depthBound]
    omega
  · intro name file pool described named
    obtain ⟨bytes, found, read⟩ := described.found
    obtain ⟨skipped, source, rest, rfl, -, held⟩ := find_of_findClass found
    refine complete source ?_ name ⟨bytes, file, pool, held, read, described.resolved, named⟩
    exact List.mem_append_right skipped List.mem_cons_self

/-- The names that are not being loaded. -/
def remaining (names loading : List String) : Nat :=
  names.countP (· ∉ loading)

/-- Whether the innermost elements of arrays of a type are references. -/
def hasObjects : FieldType → Bool
  | .object _ => true
  | .array component => hasObjects component
  | _ => false

/-- How many steps a name can take at most before one of the supplied names is loaded, and
`java/lang/Object` after it. -/
def rank (name : String) : Nat :=
  match FieldType.ofDescriptor? name with
  | some (.array component) => if hasObjects component then 3 else 2
  | _ => if name = ClassName.object then 1 else 2

/-- What may still be needed: two steps for each name of the supply that is not being loaded, and
one for `java/lang/Object`. -/
def budget (names loading : List String) : Nat :=
  2 * remaining names loading + if ClassName.object ∈ loading then 0 else 1

/-- Whether a depth is enough for a name, while others are being loaded. -/
def Enough (names : List String) (depth : Nat) (loading : List String) (name : String) : Prop :=
  budget names loading + rank name ≤ depth

theorem remaining_cons_le (names loading : List String) (name : String) :
    remaining names (name :: loading) ≤ remaining names loading := by
  refine List.countP_mono_left fun other _ outside => ?_
  simp only [List.mem_cons, not_or, decide_eq_true_eq] at outside ⊢
  exact outside.2

theorem remaining_cons_lt {names loading : List String} {name : String} (supplied : name ∈ names)
    (outside : name ∉ loading) : remaining names (name :: loading) < remaining names loading := by
  obtain ⟨before, after, rfl⟩ := List.append_of_mem supplied
  have fewerBefore := remaining_cons_le before loading name
  have fewerAfter := remaining_cons_le after loading name
  unfold remaining at *
  rw [List.countP_append, List.countP_append, List.countP_cons_of_neg (by simp),
    List.countP_cons_of_pos (by simpa using outside)]
  omega

theorem budget_cons_le (names loading : List String) (name : String) :
    budget names (name :: loading) ≤ budget names loading := by
  have fewer := remaining_cons_le names loading name
  unfold budget
  split
  · omega
  · next outside =>
    have outside' : ClassName.object ∉ loading := fun inside =>
      outside (List.mem_cons_of_mem name inside)
    rw [if_neg outside']
    omega

theorem one_le_rank (name : String) : 1 ≤ rank name := by
  unfold rank
  split
  · split <;> omega
  · split <;> omega

theorem rank_le_three (name : String) : rank name ≤ 3 := by
  unfold rank
  split
  · split <;> omega
  · split <;> omega

theorem rank_of_spelled {name : String} {component : FieldType}
    (spelled : FieldType.ofDescriptor? name = some (.array component)) :
    rank name = if hasObjects component then 3 else 2 := by
  rw [rank, spelled]

theorem rank_of_describes {name : String} {file : ClassFile} {pool : Array Constant}
    (described : Describes sources name file pool) :
    rank name = if name = ClassName.object then 1 else 2 := by
  unfold rank
  split
  · next component spelled => exact absurd spelled described.not_spelled
  · rfl

/-- A type of arrays of references has a semicolon in its descriptor. -/
theorem semicolon_mem_write {type : FieldType} (objects : hasObjects type = true) :
    ';' ∈ type.write := by
  induction type with
  | object name => simp [FieldType.write]
  | array component ih => exact List.mem_cons_of_mem _ (ih objects)
  | byte | char | double | float | int | long | short | boolean => cases objects

/-- The name of an object type is not that of arrays of references. -/
theorem rank_elementName_le {name elementName : String}
    (spelled : FieldType.ofDescriptor? name = some (.array (.object elementName))) :
    rank elementName ≤ 2 := by
  obtain ⟨⟨-, inside⟩, -⟩ := FieldType.ofDescriptor?_eq_some_iff.mp spelled
  unfold rank
  split
  · next component spelled' =>
    obtain ⟨-, same⟩ := FieldType.ofDescriptor?_eq_some_iff.mp spelled'
    split
    · next objects =>
      have member : ';' ∈ (FieldType.array component).write := semicolon_mem_write objects
      rw [← same, FieldType.descriptor, String.toList_ofList] at inside
      exact absurd member inside
    · omega
  · split <;> omega

variable {names : List String}

theorem Supply.descends (supply : Supply sources names) : Descends sources (Enough names) where
  file {depth loading name needed file pool} described named outside before := by
    have fewer := remaining_cons_lt (supply.complete described named) outside
    have small := rank_le_three needed
    unfold Enough at before ⊢
    rw [rank_of_describes described] at before
    by_cases root : name = ClassName.object
    · subst root
      rw [if_pos rfl, budget, if_neg outside] at before
      rw [budget, if_pos List.mem_cons_self]
      omega
    · have unchanged : ClassName.object ∈ name :: loading ↔ ClassName.object ∈ loading := by
        rw [List.mem_cons, or_iff_right (Ne.symm root)]
      rw [if_neg root, budget] at before
      rw [budget, if_congr unchanged rfl rfl]
      omega
  element {depth loading name elementName} spelled before := by
    have less := budget_cons_le names loading name
    have small := rank_elementName_le spelled
    unfold Enough at before ⊢
    rw [rank_of_spelled spelled, hasObjects, if_pos rfl] at before
    omega
  inner {depth loading name component} spelled before := by
    have less := budget_cons_le names loading name
    obtain ⟨wellSpelled, -⟩ := FieldType.ofDescriptor?_eq_some_iff.mp spelled
    have spelled' : FieldType.ofDescriptor? (FieldType.array component).descriptor =
        some (.array component) :=
      FieldType.ofDescriptor?_eq_some_iff.mpr ⟨wellSpelled, rfl⟩
    unfold Enough at before ⊢
    rw [rank_of_spelled spelled, hasObjects] at before
    rw [rank_of_spelled spelled']
    omega
  root {depth loading name component} spelled before := by
    have less := budget_cons_le names loading name
    have root : rank ClassName.object = 1 := by decide
    unfold Enough at before ⊢
    rw [rank_of_spelled spelled] at before
    rw [root]
    split at before <;> omega

theorem not_enough_zero (loading : List String) (name : String) :
    ¬ Enough names 0 loading name := by
  have positive := one_le_rank name
  unfold Enough
  omega

/-- The depth with which the loader starts is enough. -/
theorem Supply.enough_start (supply : Supply sources names) (name : String) :
    Enough names (depthBound sources) [] name := by
  have short := supply.short
  have small := rank_le_three name
  have few : remaining names [] ≤ names.length := List.countP_le_length
  unfold Enough budget
  split <;> omega

end Loader

end JavaMachine
