import JavaMachine.Builtin
import JavaMachine.Proofs.Class.Loading
import JavaMachine.Proofs.Class.Lockstep

/-! # The loaded classes at any time

Whatever a loader was asked for, and whatever of it failed, the classes it keeps hang together
(`Loader.Reachable.coherent`): each is kept under its own name, what it is linked to is kept as
well, the links have no cycle and lead up to `java/lang/Object`, and superclasses and interfaces are
of the right kind. A name that needs a class on a cycle is never loaded. -/

namespace JavaMachine

open Relation (ReflTransGen TransGen)

namespace Loader

variable {sources : List ClassSource}

/-! ## Each load keeps the books -/

section Sound

theorem Defines.proper {c : LinkedClass} (defined : Defines sources c) : Proper c.name := by
  intro written
  cases defined with
  | file described _ _ _ _ _ _ linked =>
    obtain ⟨rfl, -⟩ := Link.parts_of_link linked
    rw [described.plain] at written
    cases written
  | array spelled => exact ⟨_, spelled⟩

theorem LoadRules.array_eq_enter {τ : Type} (rules : LoadRules τ) (load : List String → LoadOn τ)
    (loading : List String) (component : FieldType) :
    ∃ make, rules.array load loading component =
      rules.enter loading (FieldType.array component).descriptor make := by
  cases component <;> exact ⟨_, rfl⟩

/-- Where a class is given out whatever would be made, it is given out. -/
theorem LoadRules.resolve_of_enter {τ : Type} {rules : LoadRules τ} {depth : Nat}
    {loading : List String} {name : String} {other : τ} {c : LinkedClass} (proper : Proper name)
    (entered : ∀ make, rules.enter loading name make other = .ok c other) :
    rules.resolve sources (depth + 1) loading name other = .ok c other := by
  by_cases written : name.startsWith "[" = true
  · obtain ⟨component, spelled⟩ := proper written
    rw [LoadRules.resolve_of_spelled spelled]
    obtain ⟨make, unfolded⟩ :=
      rules.array_eq_enter (rules.resolve sources depth) loading component
    rw [unfolded, (FieldType.ofDescriptor?_eq_some_iff.mp spelled).2]
    exact entered make
  · rw [LoadRules.resolve.eq_def]
    dsimp only
    rw [if_neg written]
    exact entered _

/-- The rules of the loader itself. -/
def keeping : LoadRules LoadedClasses where
  enter := cached
  refuse name := throw (.classLoad name .notFound)
  stop name := throw (.classLoad name .cyclicInheritance)

theorem shadows_keeping :
    Shadows sources (fun _ loaded other => loaded = other) keeping (fun _ _ _ => True) where
  loaded _ joint found := by
    obtain rfl := joint.matching
    obtain ⟨rfl, defined, -⟩ := joint.sound.known found
    exact LoadRules.resolve_of_enter defined.proper fun _ => cached_of_found found
  busy joint member := by
    obtain rfl := joint.matching
    exact cached_of_mem (joint.idle _ member) member
  fresh make loaded other joint outside missing _ := by
    obtain rfl := joint.matching
    refine ⟨loaded, rfl, ?_, ?_⟩
    · rintro c after _ rfl rfl made
      exact ⟨_, cached_of_ok missing outside made, rfl⟩
    · rintro error after _ - rfl failed
      exact ⟨after, cached_of_error missing outside failed, rfl⟩
  refuse _ _ := rfl
  stop _ _ := rfl

/-- **Each load keeps the books**, whether it ends well or not. Only what the name needs is loaded
in addition, and the class that is given out is then known. -/
theorem Sound.after_load {before : LoadedClasses} (sound : Sound sources before) (name : String) :
    (∀ c after, load sources name before = .ok c after → Sound sources after ∧
      Grows (ReflTransGen (Needs sources) name) before after ∧ c.name = name ∧
      Known sources after c) ∧
    ∀ error after, load sources name before = .error error after → Sound sources after ∧
      Grows (ReflTransGen (Needs sources) name) before after := by
  have descends : Descends sources fun _ _ _ => True :=
    ⟨fun _ _ _ _ => trivial, fun _ _ => trivial, fun _ _ => trivial, fun _ _ => trivial⟩
  have both : Loads sources (ReflTransGen (Needs sources) name)
      (fun _ loaded other => loaded = other) [] name (load sources name)
      (keeping.resolve sources (depthBound sources) [] name) :=
    shadows_keeping.loads _ (fun _ _ reached needs => reached.tail needs) descends trivial .refl
  have loads := both before before ⟨sound, nofun, rfl⟩
  constructor
  · intro c after ended
    rw [ended] at loads
    obtain ⟨_, -, joint, grows, known⟩ := loads.of_ok
    exact ⟨joint.sound, grows, known⟩
  · intro error after ended
    rw [ended] at loads
    obtain ⟨_, -, joint, grows⟩ := loads.of_error
    exact ⟨joint.sound, grows⟩

/-- A class that is loaded is given out, and nothing more is loaded. -/
theorem Sound.load_of_found {loaded : LoadedClasses} (sound : Sound sources loaded) {name : String}
    {c : LinkedClass} (found : loaded.lookup name = some c) :
    load sources name loaded = .ok c loaded := by
  obtain ⟨rfl, defined, -⟩ := sound name c found
  have positive : depthBound sources ≠ 0 := by
    rw [depthBound]
    omega
  obtain ⟨depth, deep⟩ := Nat.exists_eq_succ_of_ne_zero positive
  rw [load, deep, resolve.eq_def]
  dsimp only
  by_cases written : c.name.startsWith "[" = true
  · obtain ⟨component, spelled⟩ := defined.proper written
    rw [if_pos written, spelled]
    have entered : ∃ make, Loader.array (resolve sources depth) [] component =
        cached [] (FieldType.array component).descriptor make := by
      cases component <;> exact ⟨_, rfl⟩
    obtain ⟨make, unfolded⟩ := entered
    dsimp only
    rw [unfolded, (FieldType.ofDescriptor?_eq_some_iff.mp spelled).2]
    exact cached_of_found found
  · rw [if_neg written]
    exact cached_of_found found
theorem Reachable.sound {loaded : LoadedClasses} (reachable : Reachable sources loaded) :
    Sound sources loaded := by
  induction reachable with
  | nothing => exact nofun
  | loaded _ ended ih => exact ((ih.after_load _).1 _ _ ended).1
  | failed _ ended ih => exact ((ih.after_load _).2 _ _ ended).1

end Sound

/-! ## The root class -/

section Root

theorem name_of_fileOf {script : ClassScript} {name : String} {bytes : List UInt8}
    (written : Builtin.fileOf script = .ok (name, bytes)) : name = script.name := by
  unfold Builtin.fileOf at written
  split at written
  · exact (Prod.mk.inj (Except.ok.inj written)).1.symm
  · cases written

theorem names_of_mapM {scripts : List ClassScript} {files : List (String × List UInt8)}
    (ended : scripts.mapM Builtin.fileOf = .ok files) :
    files.map Prod.fst = scripts.map ClassScript.name := by
  induction scripts generalizing files with
  | nil =>
    rw [List.mapM_nil, Except.pure_eq_ok_iff] at ended
    rw [← ended]
    rfl
  | cons script rest ih =>
    simp only [List.mapM_cons, Except.bind_eq_ok_iff, Except.pure_eq_ok_iff] at ended
    obtain ⟨⟨name, bytes⟩, written, others, ended, rfl⟩ := ended
    rw [List.map_cons, List.map_cons, ih ended, name_of_fileOf written]

theorem mem_of_mapM {scripts : List ClassScript} {files : List (String × List UInt8)}
    (ended : scripts.mapM Builtin.fileOf = .ok files) {script : ClassScript}
    (member : script ∈ scripts) :
    ∃ bytes, Builtin.fileOf script = .ok (script.name, bytes) ∧ (script.name, bytes) ∈ files := by
  induction scripts generalizing files with
  | nil => cases member
  | cons first rest ih =>
    simp only [List.mapM_cons, Except.bind_eq_ok_iff, Except.pure_eq_ok_iff] at ended
    obtain ⟨⟨name, bytes⟩, written, others, ended, rfl⟩ := ended
    rcases List.mem_cons.mp member with rfl | member
    · obtain rfl := name_of_fileOf written
      exact ⟨bytes, written, List.mem_cons_self⟩
    · obtain ⟨found, writtenFound, among⟩ := ih ended member
      exact ⟨found, writtenFound, List.mem_cons_of_mem _ among⟩

/-- The built-in classes have one file for each script. -/
theorem find_script {builtin : ClassSource} (built : Builtin.source = .ok builtin)
    {script : ClassScript} (member : script ∈ Builtin.scripts) :
    ∃ bytes, Builtin.fileOf script = .ok (script.name, bytes) ∧
      builtin.find script.name = .ok (some bytes) := by
  rw [Builtin.source, Except.bind_eq_ok_iff] at built
  obtain ⟨files, ended, built⟩ := built
  obtain rfl := Except.ok.inj built
  obtain ⟨bytes, written, among⟩ := mem_of_mapM ended member
  refine ⟨bytes, written, congrArg Except.ok ?_⟩
  obtain ⟨before, after, split⟩ := List.append_of_mem (List.mem_reverse.mpr among)
  have distinct : (files.reverse.map Prod.fst).Nodup := by
    rw [List.map_reverse, names_of_mapM ended, List.nodup_reverse]
    decide
  rw [split, List.map_append, List.map_cons] at distinct
  refine List.lookup_eq_some_iff.mpr ⟨before, after, split, fun entry earlier => ?_⟩
  rw [bne_iff_ne]
  intro same
  exact List.disjoint_of_nodup_append distinct (List.mem_map_of_mem earlier)
    (same ▸ List.mem_cons_self)

/-- So a class with the name of a script is made from the file of the script. -/
theorem Defines.of_script {rest : List ClassSource} {builtin : ClassSource} {c : LinkedClass}
    (built : Builtin.source = .ok builtin) (defined : Defines (builtin :: rest) c)
    {script : ClassScript} (member : script ∈ Builtin.scripts) (named : c.name = script.name)
    (plain : script.name.startsWith "[" = false) :
    ∃ bytes file pool, Builtin.fileOf script = .ok (script.name, bytes) ∧
      ClassFile.read bytes = .ok file ∧ Constant.resolvePool file.pool = .ok pool ∧
      SuperclassFits c.name pool file.superClass c.superclass ∧
      Link.link file pool c.name c.superclass c.interfaces = .ok c := by
  obtain ⟨bytes, written, held⟩ := find_script built member
  cases defined with
  | @file name file pool superclass interfaces _ described _ superclassFits _ _ _ _ linked =>
    obtain ⟨rfl, -, rfl, rfl, -⟩ := Link.parts_of_link linked
    obtain ⟨bytes', found, read⟩ := described.found
    have first : findClass script.name (builtin :: rest) = .ok bytes := by
      rw [findClass, held]
      rfl
    rw [named] at found
    obtain rfl : bytes' = bytes := Except.ok.inj (found.symm.trans first)
    exact ⟨bytes', file, pool, written, read, described.resolved, superclassFits, linked⟩
  | array spelled =>
    have starts := startsWith_of_spelled spelled
    obtain rfl : _ = script.name := named
    cases starts.symm.trans plain

/-- The flags of the root class that is built in, if its file can be read. -/
def builtinRootFlags : Option AccessFlags :=
  match Builtin.fileOf Builtin.object with
  | .error _ => none
  | .ok (_, bytes) =>
    match ClassFile.read bytes with
    | .error _ => none
    | .ok file => some file.flags

theorem builtinRootFlags_eq : builtinRootFlags = some ⟨0x0021⟩ := by
  decide +kernel

/-- The class `java/lang/Object` can be extended. -/
theorem Defines.extensible_root {rest : List ClassSource} {builtin : ClassSource} {c : LinkedClass}
    (built : Builtin.source = .ok builtin) (defined : Defines (builtin :: rest) c)
    (root : c.name = ClassName.object) : c.isInterface = false ∧ c.flags.isFinal = false := by
  have member : Builtin.object ∈ Builtin.scripts := List.mem_cons_self
  obtain ⟨bytes, file, pool, written, read, -, -, linked⟩ :=
    defined.of_script built member root (by decide +kernel)
  have flags := builtinRootFlags_eq
  simp only [builtinRootFlags, written, read] at flags
  rw [LinkedClass.isInterface, (Link.parts_of_link linked).2.1, Option.some.inj flags]
  decide

end Root

/-! ## How loaded classes hang together -/

/-- The names of the superclass and the interfaces of a loaded class are above its own name. -/
def Below (loaded : LoadedClasses) (name above : String) : Prop :=
  ∃ c d, loaded.lookup name = some c ∧ (c.superclass = some d ∨ d ∈ c.interfaces) ∧ d.name = above

/-- The name of the superclass of a loaded class. -/
def Extends (loaded : LoadedClasses) (name above : String) : Prop :=
  ∃ c d, loaded.lookup name = some c ∧ c.superclass = some d ∧ d.name = above

/-- Loaded classes that hang together. -/
structure Coherent (sources : List ClassSource) (loaded : LoadedClasses) : Prop where
  named {name : String} {c : LinkedClass} (found : loaded.lookup name = some c) : c.name = name
  /-- The superclass, the interfaces and the class of elements are those under their names. -/
  linked {name : String} {c d : LinkedClass} (found : loaded.lookup name = some c)
    (links : c.LinksTo d) : loaded.lookup d.name = some d
  root {name : String} {c : LinkedClass} (found : loaded.lookup name = some c) :
    c.superclass = none ↔ name = ClassName.object
  extensible {name : String} {c above : LinkedClass} (found : loaded.lookup name = some c)
    (extended : c.superclass = some above) : above.isInterface = false ∧ above.flags.isFinal = false
  interface {name : String} {c above : LinkedClass} (found : loaded.lookup name = some c)
    (implemented : above ∈ c.interfaces) : above.isInterface = true
  interfaceRoot {name : String} {c : LinkedClass} (found : loaded.lookup name = some c)
    (kind : c.isInterface = true) : c.superclass.map LinkedClass.name = some ClassName.object
  acyclic (name : String) : ¬ TransGen (Below loaded) name name
  rooted {name : String} {c : LinkedClass} (found : loaded.lookup name = some c) :
    ReflTransGen (Extends loaded) name ClassName.object ∧
      (loaded.lookup ClassName.object).isSome = true
  /-- An array is below `java/lang/Object` only, and the class of its elements is loaded. -/
  array {name : String} {c : LinkedClass} (found : loaded.lookup name = some c)
    (written : name.startsWith "[" = true) :
    c.superclass.map LinkedClass.name = some ClassName.object ∧ c.interfaces = [] ∧
      ∃ component, FieldType.ofDescriptor? name = some (.array component) ∧
        c.component = some component ∧
        c.element = if component.isReference then loaded.lookup component.className else none
  /-- A name that needs one on a cycle has no class. -/
  cyclic {name repeated : String} (reached : ReflTransGen (Needs sources) name repeated)
    (cycle : TransGen (Needs sources) repeated repeated) : loaded.lookup name = none

section Coherent

variable {loaded : LoadedClasses}

theorem Sound.needs_of_below (sound : Sound sources loaded) {name above : String}
    (below : Below loaded name above) : Needs sources name above := by
  obtain ⟨c, d, found, kind, rfl⟩ := below
  obtain ⟨rfl, defined, -⟩ := sound name c found
  rcases kind with extended | implemented
  · exact defined.needs_of_linksTo (.superclass extended)
  · exact defined.needs_of_linksTo (.interface implemented)

/-- A loaded class needs no class on a cycle. -/
theorem Sound.lookup_eq_none (sound : Sound sources loaded) {name repeated : String}
    (reached : ReflTransGen (Needs sources) name repeated)
    (cycle : TransGen (Needs sources) repeated repeated) : loaded.lookup name = none := by
  by_contra present
  obtain ⟨c, found⟩ := Option.ne_none_iff_exists'.mp present
  obtain ⟨rfl, defined, -⟩ := sound name c found
  rcases Relation.reflTransGen_iff_eq_or_transGen.mp reached with same | path
  · rw [same] at cycle
    exact defined.not_needs_itself cycle
  · obtain ⟨d, links, rfl⟩ := defined.transGen_of_needs path
    exact (defined.transGen_defined links).not_needs_itself cycle

theorem Sound.extends_root (sound : Sound sources loaded) {c top : LinkedClass}
    (path : ReflTransGen (fun below above => below.superclass = some above) c top)
    (found : loaded.lookup c.name = some c) :
    ReflTransGen (Extends loaded) c.name top.name ∧ loaded.lookup top.name = some top := by
  induction path with
  | refl => exact ⟨.refl, found⟩
  | tail _ extended ih =>
    obtain ⟨path, reached⟩ := ih
    exact ⟨path.tail ⟨_, _, reached, extended, rfl⟩,
      (sound _ _ reached).2.2 _ (.superclass extended)⟩

/-- The kinds of the classes that a class is linked to. -/
theorem Defines.kinds {c : LinkedClass} (defined : Defines sources c)
    (rootExtensible : ∀ root, Defines sources root → root.name = ClassName.object →
      root.isInterface = false ∧ root.flags.isFinal = false) :
    (∀ above, c.superclass = some above →
      above.isInterface = false ∧ above.flags.isFinal = false) ∧
    (∀ above ∈ c.interfaces, above.isInterface = true) ∧
    (c.isInterface = true → c.superclass.map LinkedClass.name = some ClassName.object) := by
  cases defined with
  | @file name file pool superclass interfaces _ described named superclassFits interfacesFit
      rooted superclassDefined interfacesDefined linked =>
    obtain ⟨nameEq, flagsEq, superclassEq, interfacesEq, -, -⟩ := Link.parts_of_link linked
    refine ⟨?_, ?_, ?_⟩
    · intro above extended
      rw [superclassEq.symm.trans extended] at superclassFits
      exact superclassFits.2.2
    · intro above implemented
      rw [interfacesEq] at implemented
      obtain ⟨position, inside, rfl⟩ := List.getElem_of_mem implemented
      have inside' : position < file.interfaces.length := interfacesFit.length_eq ▸ inside
      exact (interfacesFit.get inside' inside).2
    · intro kind
      cases superclass with
      | none =>
        -- Without a superclass the class is the root, which is no interface.
        have self : Defines sources c := .file described named superclassFits interfacesFit rooted
          superclassDefined interfacesDefined linked
        have notInterface := (rootExtensible c self (nameEq.trans superclassFits.2)).1
        rw [notInterface] at kind
        cases kind
      | some above =>
        rw [LinkedClass.isInterface, flagsEq] at kind
        rw [superclassEq, Option.map_some, rooted kind above rfl]
  | array _ _ root _ rootDefined =>
    refine ⟨?_, nofun, ?_⟩
    · intro above extended
      obtain rfl := Option.some.inj extended
      exact rootExtensible _ rootDefined root
    · intro _
      exact congrArg some root

/-- What the name of an array class tells of the class. -/
theorem Sound.array (sound : Sound sources loaded) {name : String} {c : LinkedClass}
    (found : loaded.lookup name = some c) (written : name.startsWith "[" = true) :
    c.superclass.map LinkedClass.name = some ClassName.object ∧ c.interfaces = [] ∧
      ∃ component, FieldType.ofDescriptor? name = some (.array component) ∧
        c.component = some component ∧
        c.element = if component.isReference then loaded.lookup component.className else none := by
  obtain ⟨rfl, defined, linked⟩ := sound name c found
  cases defined with
  | file described _ _ _ _ _ _ ended =>
    obtain ⟨rfl, -⟩ := Link.parts_of_link ended
    rw [described.plain] at written
    cases written
  | @array name component element object spelled elementFits root _ _ =>
    refine ⟨congrArg some root, rfl, component, spelled, rfl, ?_⟩
    cases element with
    | none =>
      unfold ElementFits at elementFits
      split at elementFits
      · cases elementFits
      · next primitive => exact (if_neg primitive).symm
    | some inner =>
      obtain ⟨reference, named⟩ := elementFits.name_eq
      rw [if_pos reference, ← named, linked inner (.element rfl)]
      rfl

/-- **The loaded classes hang together at any time**, after any loads of any names from any class
files, with failures in between. -/
theorem Reachable.coherent {builtin : ClassSource} {rest : List ClassSource}
    (built : Builtin.source = .ok builtin) (reachable : Reachable (builtin :: rest) loaded) :
    Coherent (builtin :: rest) loaded := by
  have sound := reachable.sound
  have rootExtensible (root : LinkedClass) (defined : Defines (builtin :: rest) root)
      (named : root.name = ClassName.object) := defined.extensible_root built named
  constructor
  case named => exact fun found => (sound _ _ found).1
  case linked => exact fun found links => (sound _ _ found).2.2 _ links
  case root =>
    intro name c found
    obtain ⟨rfl, defined, -⟩ := sound name c found
    exact defined.superclass_eq_none_iff
  case extensible =>
    intro name c above found extended
    exact ((sound name c found).2.1.kinds rootExtensible).1 above extended
  case interface =>
    intro name c above found implemented
    exact ((sound name c found).2.1.kinds rootExtensible).2.1 above implemented
  case interfaceRoot =>
    intro name c found kind
    exact ((sound name c found).2.1.kinds rootExtensible).2.2 kind
  case acyclic =>
    intro name cycle
    obtain ⟨_, ⟨c, _, found, _⟩, _⟩ := TransGen.head'_iff.mp cycle
    have needs : TransGen (Needs (builtin :: rest)) name name :=
      TransGen.mono (fun _ _ => sound.needs_of_below) _ _ cycle
    rw [sound.lookup_eq_none .refl needs] at found
    cases found
  case rooted =>
    intro name c found
    obtain ⟨rfl, defined, -⟩ := sound name c found
    obtain ⟨top, path, named, -⟩ := defined.exists_root
    obtain ⟨names, reached⟩ := sound.extends_root path found
    rw [named] at names reached
    exact ⟨names, by rw [reached]; rfl⟩
  case array => exact fun found written => sound.array found written
  case cyclic => exact fun reached cycle => sound.lookup_eq_none reached cycle

end Coherent

/-! ## The class of arrays of strings -/

/-- The built-in classes, as a source. -/
def builtinClasses : ClassSource :=
  match Builtin.source with
  | .ok builtin => builtin
  | .error _ => .memory []

/-- What a source has loaded once the class of arrays of strings is. -/
def stringsOf (source : ClassSource) : LoadedClasses :=
  match load [source] "[Ljava/lang/String;" [] with
  | .ok _ loaded => loaded
  | .error _ _ => []

theorem names_stringsOf_builtinClasses : (stringsOf builtinClasses).map Prod.fst =
    ["[Ljava/lang/String;", ClassName.string, ClassName.object] := by
  decide +kernel

theorem reachable_stringsOf (source : ClassSource) : Reachable [source] (stringsOf source) := by
  unfold stringsOf
  split
  · next ended => exact .loaded .nothing ended
  · exact .nothing

theorem source_eq_builtinClasses : Builtin.source = .ok builtinClasses := by
  cases built : Builtin.source with
  | ok builtin => rw [builtinClasses, built]
  | error error =>
    have empty : builtinClasses = .memory [] := by rw [builtinClasses, built]
    have names := names_stringsOf_builtinClasses
    have none : (stringsOf (.memory [])).map Prod.fst = [] := by decide +kernel
    rw [empty, none] at names
    cases names

theorem coherent_strings :
    Builtin.source = .ok builtinClasses ∧
      Reachable [builtinClasses] (stringsOf builtinClasses) ∧
      (stringsOf builtinClasses).map Prod.fst =
        ["[Ljava/lang/String;", ClassName.string, ClassName.object] ∧
      Coherent [builtinClasses] (stringsOf builtinClasses) :=
  ⟨source_eq_builtinClasses, reachable_stringsOf builtinClasses, names_stringsOf_builtinClasses,
    (reachable_stringsOf builtinClasses).coherent source_eq_builtinClasses⟩

end Loader

end JavaMachine
