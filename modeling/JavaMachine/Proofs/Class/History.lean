import JavaMachine.Proofs.Class.Registry

/-! # Loading and what was loaded before

The loader gives for a name what it would give if it kept nothing: every class that the sources
define, and otherwise always the same error. So what was loaded before, and what of it failed, makes
no difference to the outcome, and a load that fails does no harm
(`Loader.Reachable.loadsAfresh`). -/

namespace JavaMachine.Loader

open Relation (ReflTransGen TransGen)

variable {sources : List ClassSource} {τ : Type}

/-! ## Making a class whose links are at hand -/

section Made

variable {load : LoadOn τ} {other : τ} {name : String} {file : ClassFile} {pool : Array Constant}
  {superclass : Option LinkedClass} {interfaces : List LinkedClass} {c : LinkedClass}

theorem ofExcept_bind_eq {α β : Type} {result : Except Error α} {value : α}
    (ended : result = .ok value) (next : α → LoadingOn τ β) :
    (ofExcept result >>= next) other = next value other := by
  rw [ended]
  rfl

theorem bind_eq_of_ok {α β : Type} {action : LoadingOn τ α} {value : α} {after : τ}
    (ended : action other = .ok value after) (next : α → LoadingOn τ β) :
    (action >>= next) other = next value after := by
  simp only [Bind.bind, EStateM.bind, ended]

theorem orMissing_eq_ok {className dependency : String} {fault : LoadFault}
    {action : LoadingOn τ LinkedClass} {after : τ} (ended : action other = .ok c after) :
    orMissing className dependency fault action other = .ok c after := by
  simp only [orMissing, MonadExcept.tryCatch, tryCatchThe, MonadExceptOf.tryCatch,
    EStateM.tryCatch, ended]

theorem superclass_eq_some {index : UInt16} {above : LinkedClass} {after : τ}
    (fits : SuperclassFits name pool index (some above))
    (loads : load above.name other = .ok above after) :
    Loader.superclass load name pool index other = .ok (some above) after := by
  obtain ⟨present, named, kind, extensible⟩ := fits
  unfold Loader.superclass
  rw [if_neg present, ofExcept_bind_eq named, bind_eq_of_ok (orMissing_eq_ok loads)]
  simp only [kind, extensible, Bool.false_eq_true, ↓reduceIte]
  rfl

theorem superclass_eq_none {index : UInt16} (fits : SuperclassFits name pool index none) :
    Loader.superclass load name pool index other = .ok none other := by
  obtain ⟨absent, rfl⟩ := fits
  unfold Loader.superclass
  rw [if_pos absent, if_pos (beq_self_eq_true _)]
  rfl

theorem superclass_eq_ok (fits : SuperclassFits name pool file.superClass superclass)
    (loads : ∀ above ∈ superclass, load above.name other = .ok above other) :
    Loader.superclass load name pool file.superClass other = .ok superclass other := by
  cases superclass with
  | none => exact superclass_eq_none fits
  | some above => exact superclass_eq_some fits (loads above rfl)

theorem interface_eq_ok {index : UInt16} {above : LinkedClass}
    (fits : InterfaceFits pool index above) (loads : load above.name other = .ok above other) :
    interface load name pool index other = .ok above other := by
  unfold interface
  rw [ofExcept_bind_eq fits.1, bind_eq_of_ok (orMissing_eq_ok loads)]
  simp only [fits.2, Bool.not_true, Bool.false_eq_true, ↓reduceIte]
  rfl

theorem mapM_interface_eq_ok {indices : List UInt16}
    (fit : List.Forall₂ (InterfaceFits pool) indices interfaces)
    (loads : ∀ above ∈ interfaces, load above.name other = .ok above other) :
    indices.mapM (interface load name pool) other = .ok interfaces other := by
  induction fit with
  | nil => rfl
  | @cons index above indices interfaces fits _ ih =>
    rw [List.mapM_cons, bind_eq_of_ok (interface_eq_ok fits (loads above List.mem_cons_self)),
      bind_eq_of_ok (ih fun other member => loads other (List.mem_cons_of_mem above member))]
    rfl

/-- A class is made from its file when its superclass and its interfaces are given out. -/
theorem define_eq_ok_of_links {between after : τ} (described : Describes sources name file pool)
    (named : Link.classNameAt pool file.thisClass = .ok name)
    (rooted : file.flags.isInterface = true → ∀ above ∈ superclass, above.name = ClassName.object)
    (linked : Link.link file pool name superclass interfaces = .ok c)
    (superclassGiven : Loader.superclass load name pool file.superClass other =
      .ok superclass between)
    (interfacesGiven : file.interfaces.mapM (interface load name pool) between =
      .ok interfaces after) :
    define load sources name other = .ok c after := by
  obtain ⟨bytes, found, read⟩ := described.found
  have read' : (ClassFile.read bytes).mapError Error.malformedClassFile = .ok file := by
    rw [read]
    rfl
  unfold define
  rw [ofExcept_bind_eq found, ofExcept_bind_eq read', ofExcept_bind_eq described.resolved,
    ofExcept_bind_eq named]
  simp only [bne_self_eq_false, Bool.false_eq_true, ↓reduceIte]
  rw [bind_eq_of_ok superclassGiven, bind_eq_of_ok interfacesGiven]
  have passes : ¬ (file.flags.isInterface &&
      superclass.any fun above => above.name != ClassName.object) = true := by
    intro refused
    obtain ⟨kind, differs⟩ := Bool.and_eq_true_iff.mp refused
    cases superclass with
    | none => cases differs
    | some above => simp [rooted kind above rfl] at differs
  rw [if_neg passes, linked]
  rfl

/-- A class is made from its file when what it is linked to is given out. -/
theorem define_eq_ok (described : Describes sources name file pool)
    (named : Link.classNameAt pool file.thisClass = .ok name)
    (superclassFits : SuperclassFits name pool file.superClass superclass)
    (interfacesFit : List.Forall₂ (InterfaceFits pool) file.interfaces interfaces)
    (rooted : file.flags.isInterface = true → ∀ above ∈ superclass, above.name = ClassName.object)
    (linked : Link.link file pool name superclass interfaces = .ok c)
    (superclassLoads : ∀ above ∈ superclass, load above.name other = .ok above other)
    (interfacesLoad : ∀ above ∈ interfaces, load above.name other = .ok above other) :
    define load sources name other = .ok c other :=
  define_eq_ok_of_links described named rooted linked
    (superclass_eq_ok superclassFits superclassLoads)
    (mapM_interface_eq_ok interfacesFit interfacesLoad)

/-- An array class is made when the classes it is linked to are given out. -/
theorem arrayFrom_eq_ok {component : FieldType} {element : Option LinkedClass}
    {object : LinkedClass} {elementAction : LoadingOn τ (Option LinkedClass)}
    {objectAction : LoadingOn τ LinkedClass}
    (elementLoads : elementAction other = .ok element other)
    (objectLoads : objectAction other = .ok object other) :
    arrayFrom name component elementAction objectAction other =
      .ok (Link.arrayClass name component element object) other := by
  rw [arrayFrom, bind_eq_of_ok elementLoads, bind_eq_of_ok objectLoads]
  rfl

theorem map_some_eq_ok {action : LoadingOn τ LinkedClass} (loads : action other = .ok c other) :
    (some <$> action) other = .ok (some c) other := by
  rw [map_eq_pure_bind, bind_eq_of_ok loads]
  rfl

end Made

/-! ## Loading without keeping anything -/

/-- The rules of a loader that keeps no class. -/
def forgetful : LoadRules Unit where
  enter loading name make :=
    if loading.contains name then throw (.classLoad name .cyclicInheritance) else make
  refuse name := throw (.classLoad name .notFound)
  stop name := throw (.classLoad name .cyclicInheritance)

theorem forgetful_enter {loading : List String} {name : String} {make : LoadingOn Unit LinkedClass}
    (outside : name ∉ loading) : forgetful.enter loading name make = make := by
  have absent : ¬ loading.contains name = true := by simpa using outside
  exact if_neg absent

/-- What a class is linked to does not lead back to it. -/
theorem Defines.not_mem_cons {c d e : LinkedClass} {loading : List String}
    (defined : Defines sources c)
    (outside : ∀ e, ReflTransGen LinkedClass.LinksTo c e → e.name ∉ loading)
    (links : c.LinksTo d) (path : ReflTransGen LinkedClass.LinksTo d e) :
    e.name ∉ c.name :: loading := by
  have longer : TransGen LinkedClass.LinksTo c e := .head' links path
  rw [List.mem_cons, not_or]
  refine ⟨fun same => ?_, outside e longer.to_reflTransGen⟩
  obtain rfl := (defined.transGen_defined longer).eq_of_name_eq defined same
  exact absurd (LinkedClass.sizeOf_lt_of_transGen longer) (Nat.lt_irrefl _)

/-- **Every class that the sources define is given**, if nothing that it is linked to is being
loaded. -/
theorem Defines.resolve_forgetful {names : List String} (descends : Descends sources (Enough names))
    {c : LinkedClass} (defined : Defines sources c) {depth : Nat} {loading : List String}
    (enough : Enough names depth loading c.name)
    (outside : ∀ d, ReflTransGen LinkedClass.LinksTo c d → d.name ∉ loading) :
    forgetful.resolve sources depth loading c.name () = .ok c () := by
  induction defined generalizing depth loading with
  | @file name file pool superclass interfaces c described named superclassFits interfacesFit rooted
      superclassDefined interfacesDefined linked superclassIh interfacesIh =>
    have defined := Defines.file described named superclassFits interfacesFit rooted
      superclassDefined interfacesDefined linked
    have self := outside c .refl
    obtain ⟨rfl, -, rfl, rfl, -, -⟩ := Link.parts_of_link linked
    cases depth with
    | zero => exact absurd enough (not_enough_zero loading c.name)
    | succ depth =>
      rw [LoadRules.resolve.eq_def]
      simp only [described.plain, Bool.false_eq_true, ↓reduceIte]
      rw [forgetful_enter self]
      refine define_eq_ok described named superclassFits interfacesFit rooted linked ?_ ?_
      · intro above extended
        exact superclassIh above extended (descends.file described named self enough) fun _ =>
          defined.not_mem_cons outside (.superclass extended)
      · intro above implemented
        exact interfacesIh above implemented (descends.file described named self enough) fun _ =>
          defined.not_mem_cons outside (.interface implemented)
  | @array name component element object spelled elementFits root elementDefined rootDefined
      elementIh rootIh =>
    have defined := Defines.array spelled elementFits root elementDefined rootDefined
    change Enough names depth loading name at enough
    change forgetful.resolve sources depth loading name () = _
    have self : name ∉ loading := outside _ .refl
    cases depth with
    | zero => exact absurd enough (not_enough_zero loading name)
    | succ depth =>
      have rootLoads : forgetful.resolve sources depth (name :: loading) ClassName.object () =
          .ok object () := by
        rw [← root]
        exact rootIh (root ▸ descends.root spelled enough) fun _ =>
          defined.not_mem_cons outside (.superclass rfl)
      rw [LoadRules.resolve_of_spelled spelled]
      have finish {action : LoadingOn Unit (Option LinkedClass)}
          (unfolded : forgetful.array (forgetful.resolve sources depth) loading component =
            forgetful.enter loading name (arrayFrom name component action
              (forgetful.resolve sources depth (name :: loading) ClassName.object)))
          (elementLoads : action () = .ok element ()) :
          forgetful.array (forgetful.resolve sources depth) loading component () =
            .ok (Link.arrayClass name component element object) () := by
        rw [unfolded, forgetful_enter self]
        exact arrayFrom_eq_ok elementLoads rootLoads
      have innerLoads (inner : LinkedClass) (member : element = some inner) {depth : Nat}
          (enough : Enough names depth (name :: loading) inner.name) :
          forgetful.resolve sources depth (name :: loading) inner.name () = .ok inner () :=
        elementIh inner member enough fun _ => defined.not_mem_cons outside (.element member)
      obtain ⟨wellSpelled, rfl⟩ := FieldType.ofDescriptor?_eq_some_iff.mp spelled
      cases component with
      | object elementName =>
        obtain ⟨inner, rfl, rfl⟩ := Option.map_eq_some_iff.mp elementFits
        exact finish rfl (map_some_eq_ok (innerLoads inner rfl (descends.element spelled enough)))
      | array innerType =>
        obtain ⟨inner, rfl, named⟩ := Option.map_eq_some_iff.mp elementFits
        change inner.name = (FieldType.array innerType).descriptor at named
        have loads := innerLoads inner rfl (named ▸ descends.inner spelled enough)
        have innerSpelled : FieldType.ofDescriptor? inner.name = some (.array innerType) :=
          FieldType.ofDescriptor?_eq_some_iff.mpr ⟨wellSpelled, named.symm⟩
        rw [LoadRules.resolve_of_spelled innerSpelled] at loads
        exact finish rfl (map_some_eq_ok loads)
      | byte | char | double | float | int | long | short | boolean =>
        obtain rfl := Option.map_eq_none_iff.mp elementFits
        exact finish rfl rfl

/-! ## The loader gives what one that keeps nothing gives -/

theorem shadows_forgetful {names : List String} (descends : Descends sources (Enough names)) :
    Shadows sources (fun _ _ _ => True) forgetful (Enough names) where
  loaded {depth loading name loaded other c} enough joint found := by
    obtain ⟨rfl, known⟩ := joint.sound.known found
    refine known.1.resolve_forgetful descends enough fun d path => ?_
    have reached : loaded.lookup d.name = some d := by
      induction path with
      | refl => exact found
      | tail _ links ih => exact (joint.sound _ _ ih).2.2 _ links
    intro member
    rw [joint.idle _ member] at reached
    cases reached
  busy {loading name _ _ _} _ member := by
    have contained : loading.contains name = true := List.contains_iff_mem.mpr member
    change (if loading.contains name = true then _ else _ : LoadingOn Unit LinkedClass) _ = _
    rw [if_pos contained]
    rfl
  fresh {loading name} make {loaded other} joint outside missing proper := by
    rw [forgetful_enter outside]
    exact ⟨(), trivial, fun c after ended _ _ made => ⟨ended, made, trivial⟩,
      fun error after ended _ _ failed => ⟨ended, failed, trivial⟩⟩
  refuse _ _ := rfl
  stop {loading name _ _} enough _ := absurd enough (not_enough_zero loading name)

/-- The result or the error of a load, without what is then loaded. -/
def outcome {σ : Type} : EStateM.Result Error σ LinkedClass → Except Error LinkedClass
  | .ok c _ => .ok c
  | .error error _ => .error error

theorem Alike.outcome_eq {scope : String → Prop} {R : List String → LoadedClasses → τ → Prop}
    {loading : List String} {before : LoadedClasses} {good : LinkedClass → LoadedClasses → Prop}
    {result : EStateM.Result Error LoadedClasses LinkedClass}
    {result' : EStateM.Result Error τ LinkedClass}
    (alike : Alike sources scope R loading before good result result') :
    outcome result = outcome result' := by
  cases alike <;> rfl

section History

variable {loaded : LoadedClasses}

theorem Sound.outcome_eq_forgetful (bounded : ∀ source ∈ sources, source.Bounded)
    (sound : Sound sources loaded) (name : String) :
    outcome (load sources name loaded) =
      outcome (forgetful.resolve sources (depthBound sources) [] name ()) := by
  obtain ⟨names, supply⟩ := exists_supply bounded
  exact ((shadows_forgetful supply.descends).loads (fun _ => True)
    (fun _ _ _ _ => trivial) supply.descends (supply.enough_start name) trivial loaded ()
    ⟨sound, nofun, trivial⟩).outcome_eq

/-- A class that the sources define is what a load of its name gives. -/
theorem Sound.outcome_eq_ok (bounded : ∀ source ∈ sources, source.Bounded)
    (sound : Sound sources loaded) {c : LinkedClass} (defined : Defines sources c) :
    outcome (load sources c.name loaded) = .ok c := by
  obtain ⟨names, supply⟩ := exists_supply bounded
  rw [sound.outcome_eq_forgetful bounded c.name,
    defined.resolve_forgetful supply.descends (supply.enough_start c.name) fun _ _ => nofun]
  rfl

/-- The file of a class that is no array is in the first source that has one. -/
theorem Defines.first_source {c : LinkedClass} (defined : Defines sources c)
    (plain : c.name.startsWith "[" = false) :
    ∃ skipped source rest bytes file pool, sources = skipped ++ source :: rest ∧
      (∀ other ∈ skipped, other.find c.name = .ok none) ∧
      source.find c.name = .ok (some bytes) ∧ ClassFile.read bytes = .ok file ∧
      Constant.resolvePool file.pool = .ok pool ∧
      Link.link file pool c.name c.superclass c.interfaces = .ok c := by
  cases defined with
  | @file name file pool superclass interfaces _ described _ _ _ _ _ _ linked =>
    obtain ⟨rfl, -, rfl, rfl, -, -⟩ := Link.parts_of_link linked
    obtain ⟨bytes, found, read⟩ := described.found
    obtain ⟨skipped, source, rest, split, passed, held⟩ := find_of_findClass found
    exact ⟨skipped, source, rest, bytes, file, pool, split, passed, held, read, described.resolved,
      linked⟩
  | array spelled =>
    have clash : true = false := (startsWith_of_spelled spelled).symm.trans plain
    cases clash

/-- How a name is loaded, whatever was loaded before. -/
structure LoadsAfresh (sources : List ClassSource) (loaded : LoadedClasses) (name : String) :
    Prop where
  /-- A loader with nothing loaded gives the same class or the same error. -/
  outcome_eq : outcome (load sources name loaded) = outcome (load sources name [])
  /-- With cells and marks the load comes to an end, and leaves no empty cell and no mark. -/
  registry : Registry.load sources name (Registry.idle loaded) =
    Registry.ended (load sources name loaded)
  /-- A class is kept, and it is the one in the first source that has its name. -/
  succeeded {c : LinkedClass} {after : LoadedClasses}
    (ended : load sources name loaded = .ok c after) :
    c.name = name ∧ after.lookup name = some c ∧
      (name.startsWith "[" = false →
        ∃ skipped source rest bytes file pool, sources = skipped ++ source :: rest ∧
          (∀ other ∈ skipped, other.find name = .ok none) ∧
          source.find name = .ok (some bytes) ∧ ClassFile.read bytes = .ok file ∧
          Constant.resolvePool file.pool = .ok pool ∧
          Link.link file pool name c.superclass c.interfaces = .ok c)
  /-- A failure keeps what was loaded, and adds only what the name needs and what can be loaded by
  itself. -/
  failed {error : Error} {after : LoadedClasses}
    (ended : load sources name loaded = .error error after) :
    after.lookup name = none ∧
      (∀ other c, loaded.lookup other = some c → after.lookup other = some c) ∧
      ∀ other c, after.lookup other = some c → loaded.lookup other = none →
        TransGen (Needs sources) name other ∧ outcome (load sources other []) = .ok c

/-- **What was loaded or failed before makes no difference.** -/
theorem Reachable.loadsAfresh
    (hosts : ∀ lookup size, .host lookup size ∈ sources → (ClassSource.host lookup size).Bounded)
    (reachable : Reachable sources loaded) (name : String) : LoadsAfresh sources loaded name := by
  have bounded := ClassSource.bounded_of_hosts hosts
  have sound := reachable.sound
  have fresh : Sound sources [] := nofun
  constructor
  case outcome_eq =>
    rw [sound.outcome_eq_forgetful bounded name, fresh.outcome_eq_forgetful bounded name]
  case registry => exact Registry.load_eq bounded reachable name
  case succeeded =>
    intro c after ended
    obtain ⟨-, -, rfl, defined, found⟩ := (sound.after_load name).1 c after ended
    exact ⟨rfl, found, defined.first_source⟩
  case failed =>
    intro error after ended
    obtain ⟨soundAfter, grows⟩ := (sound.after_load name).2 error after ended
    have missing : after.lookup name = none := by
      by_contra present
      obtain ⟨c, found⟩ := Option.ne_none_iff_exists'.mp present
      obtain ⟨rfl, defined, -⟩ := soundAfter name c found
      have given := sound.outcome_eq_ok bounded defined
      rw [ended] at given
      cases given
    refine ⟨missing, fun other c found => grows.lookup found, fun other c found absent => ?_⟩
    obtain ⟨rfl, defined, -⟩ := soundAfter other c found
    refine ⟨?_, fresh.outcome_eq_ok bounded defined⟩
    rcases grows c.name with same | ⟨-, reached⟩
    · rw [same, absent] at found
      cases found
    · rcases Relation.reflTransGen_iff_eq_or_transGen.mp reached with same | path
      · rw [same, missing] at found
        cases found
      · exact path

end History

/-! ## A class that extends itself -/

/-- The file of a class `A` whose superclass is `A`. -/
def selfBytes : List UInt8 :=
  [0xca, 0xfe, 0xba, 0xbe, 0, 0, 0, 52, 0, 3, 1, 0, 1, 65, 7, 0, 1,
    0, 0x21, 0, 2, 0, 2, 0, 0, 0, 0, 0, 0, 0, 0]

/-- A source that finds the class `A` only. -/
def selfSource : ClassSource :=
  .host (fun name => .ok (if name = "A" then some selfBytes else none)) 1

theorem bounded_selfSource : selfSource.Bounded := by
  refine ⟨["A"], Nat.le_refl 1, ?_⟩
  rintro name ⟨bytes, _, _, found, -⟩
  have given : (if name = "A" then some selfBytes else none) = some bytes := Except.ok.inj found
  split at given
  · next named => exact List.mem_singleton.mpr named
  · cases given

/-- What is loaded when the root class is, from a source that has it and one that has `A`. -/
def loadedRoot : LoadedClasses :=
  match load [rootSource, selfSource] ClassName.object [] with
  | .ok _ loaded => loaded
  | .error _ _ => []

theorem names_loadedRoot : loadedRoot.map Prod.fst = [ClassName.object] := by
  decide +kernel

theorem reachable_loadedRoot : Reachable [rootSource, selfSource] loadedRoot := by
  unfold loadedRoot
  split
  · next ended => exact .loaded .nothing ended
  · exact .nothing

theorem loadsAfresh_self :
    (∀ lookup size, .host lookup size ∈ [rootSource, selfSource] →
      (ClassSource.host lookup size).Bounded) ∧
    Reachable [rootSource, selfSource] loadedRoot ∧
    loadedRoot.map Prod.fst = [ClassName.object] ∧
    LoadsAfresh [rootSource, selfSource] loadedRoot "A" := by
  have hosts (lookup : String → Except Error (Option (List UInt8))) (size : Nat)
      (member : .host lookup size ∈ [rootSource, selfSource]) :
      (ClassSource.host lookup size).Bounded := by
    rcases List.mem_cons.mp member with same | member
    · cases same
    · rw [List.mem_singleton.mp member]
      exact bounded_selfSource
  exact ⟨hosts, reachable_loadedRoot, names_loadedRoot, reachable_loadedRoot.loadsAfresh hosts "A"⟩

end JavaMachine.Loader
