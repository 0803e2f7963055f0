import JavaMachine.Loader
import JavaMachine.Proofs.Class.MethodLookup
import JavaMachine.Proofs.Except

/-! # The method tables of loaded classes

Loading a class loads others before it, keeps them when it fails, and makes array classes on the
way. Whatever is loaded, in whatever order and with whatever failures in between, has a method
table made from the tables above it, so that the tables answer like the search through the
ancestors. -/

namespace JavaMachine

/-! ## Linked classes -/

namespace Link

open LinkedClass

theorem tablesBuilt_of_link {file : ClassFile} {pool : Array Constant} {name : String}
    {superclass : Option LinkedClass} {interfaces : List LinkedClass} {linked : LinkedClass}
    (superclassBuilt : ∀ c ∈ superclass, c.TablesBuilt)
    (interfacesBuilt : ∀ c ∈ interfaces, c.TablesBuilt)
    (ended : link file pool name superclass interfaces = .ok linked) : linked.TablesBuilt := by
  simp only [link, Except.bind_eq_ok_iff, Except.pure_eq_ok_iff] at ended
  obtain ⟨fields, -, methods, -, meanings, -, rfl⟩ := ended
  exact .mk superclassBuilt interfacesBuilt nofun

theorem tablesBuilt_arrayClass {name : String} {component : FieldType}
    {element : Option LinkedClass} {object : LinkedClass}
    (elementBuilt : ∀ c ∈ element, c.TablesBuilt) (objectBuilt : object.TablesBuilt) :
    (arrayClass name component element object).TablesBuilt := by
  refine .mk ?_ nofun elementBuilt
  rintro _ ⟨⟩
  exact objectBuilt

end Link

/-! ## Loading -/

namespace Loader

open LinkedClass (TablesBuilt)

variable {α β : Type}

/-- Every loaded class has a table made from the tables above it. -/
def AllBuilt (loaded : LoadedClasses) : Prop :=
  ∀ entry ∈ loaded, entry.2.TablesBuilt

/-- A result that is good if there is one, with only such classes left behind. -/
def Good (good : α → Prop) : EStateM.Result Error LoadedClasses α → Prop
  | .ok value loaded => good value ∧ AllBuilt loaded
  | .error _ loaded => AllBuilt loaded

/-- Loading that leaves only classes with their tables, and gives only good results. -/
def Keeps (good : α → Prop) (action : Loading α) : Prop :=
  ∀ loaded, AllBuilt loaded → Good good (action loaded)

section Keeps

variable {good : α → Prop} {fine : β → Prop}

theorem keeps_pure {value : α} (holds : good value) : Keeps good (pure value) :=
  fun _ built => ⟨holds, built⟩

theorem keeps_throw (error : Error) : Keeps good (throw error) :=
  fun _ built => built

theorem Keeps.bind {action : Loading α} {next : α → Loading β} (first : Keeps good action)
    (second : ∀ value, good value → Keeps fine (next value)) : Keeps fine (action >>= next) := by
  intro loaded built
  specialize first loaded built
  cases ended : action loaded with
  | ok value after =>
    rw [ended] at first
    have step : (action >>= next) loaded = next value after := by
      simp only [Bind.bind, EStateM.bind, ended]
    rw [step]
    exact second value first.1 after first.2
  | error error after =>
    rw [ended] at first
    have step : (action >>= next) loaded = .error error after := by
      simp only [Bind.bind, EStateM.bind, ended]
    rw [step]
    exact first

theorem Keeps.map {action : Loading α} {change : α → β} (first : Keeps good action)
    (second : ∀ value, good value → fine (change value)) : Keeps fine (change <$> action) := by
  rw [map_eq_pure_bind]
  exact first.bind fun value holds => keeps_pure (second value holds)

theorem keeps_throw_bind (error : Error) (next : β → Loading α) :
    Keeps good (throw error >>= next) := by
  have never : Keeps (fun _ : β => False) (throw error) := keeps_throw error
  exact never.bind fun _ => False.elim

theorem keeps_ofExcept {result : Except Error α}
    (holds : ∀ value, result = .ok value → good value) : Keeps good (ofExcept result) := by
  cases result with
  | ok value => exact keeps_pure (holds value rfl)
  | error error => exact keeps_throw error

theorem keeps_ofExcept_any (result : Except Error α) : Keeps (fun _ => True) (ofExcept result) :=
  keeps_ofExcept fun _ _ => trivial

theorem Keeps.tryCatch {action : Loading α} {handle : Error → Loading α}
    (first : Keeps good action) (second : ∀ error, Keeps good (handle error)) :
    Keeps good (tryCatch action handle) := by
  intro loaded built
  specialize first loaded built
  cases ended : action loaded with
  | ok value after =>
    rw [ended] at first
    have step : MonadExcept.tryCatch action handle loaded = .ok value after := by
      simp only [MonadExcept.tryCatch, tryCatchThe, MonadExceptOf.tryCatch, EStateM.tryCatch,
        ended]
    rw [step]
    exact first
  | error error after =>
    rw [ended] at first
    have step : MonadExcept.tryCatch action handle loaded = handle error after := by
      simp only [MonadExcept.tryCatch, tryCatchThe, MonadExceptOf.tryCatch, EStateM.tryCatch,
        ended]
      rfl
    rw [step]
    exact second error after first

theorem keeps_mapM {items : List α} {action : α → Loading β}
    (each : ∀ item, Keeps fine (action item)) :
    Keeps (fun results => ∀ result ∈ results, fine result) (items.mapM action) := by
  induction items with
  | nil =>
    rw [List.mapM_nil]
    exact keeps_pure nofun
  | cons first rest ih =>
    rw [List.mapM_cons]
    refine (each first).bind fun result holds => ih.bind fun results hold => ?_
    exact keeps_pure (List.forall_mem_cons.mpr ⟨holds, hold⟩)

end Keeps

theorem keeps_get : Keeps AllBuilt get :=
  fun _ built => ⟨built, built⟩

theorem keeps_publish {c : LinkedClass} (built : c.TablesBuilt) :
    Keeps TablesBuilt (publish c) :=
  fun _ others => ⟨built, List.forall_mem_cons.mpr ⟨built, others⟩⟩

section Classes

variable {load : Load}

theorem keeps_orMissing {action : Loading LinkedClass} {className dependency : String}
    {fault : LoadFault} (keeps : Keeps TablesBuilt action) :
    Keeps TablesBuilt (orMissing className dependency fault action) := by
  refine keeps.tryCatch fun error => ?_
  split
  · exact keeps_throw _
  · exact keeps_throw _

theorem keeps_superclass (keeps : ∀ name, Keeps TablesBuilt (load name)) (className : String)
    (pool : Array Constant) (index : UInt16) :
    Keeps (fun found => ∀ c ∈ found, c.TablesBuilt) (superclass load className pool index) := by
  unfold superclass
  split
  · split
    · exact keeps_pure nofun
    · exact keeps_throw _
  · refine (keeps_ofExcept_any _).bind fun name _ => ?_
    refine (keeps_orMissing (keeps name)).bind fun c built => ?_
    dsimp only
    split
    · exact keeps_throw_bind _ _
    · split
      · exact keeps_throw_bind _ _
      · refine keeps_pure ?_
        rintro _ ⟨⟩
        exact built

theorem keeps_interface (keeps : ∀ name, Keeps TablesBuilt (load name)) (className : String)
    (pool : Array Constant) (index : UInt16) :
    Keeps TablesBuilt (interface load className pool index) := by
  refine (keeps_ofExcept_any _).bind fun name _ => ?_
  refine (keeps_orMissing (keeps name)).bind fun c built => ?_
  dsimp only
  split
  · exact keeps_throw_bind _ _
  · exact keeps_pure built

theorem keeps_define (keeps : ∀ name, Keeps TablesBuilt (load name)) (sources : List ClassSource)
    (className : String) : Keeps TablesBuilt (define load sources className) := by
  refine (keeps_ofExcept_any _).bind fun bytes _ => (keeps_ofExcept_any _).bind fun file _ => ?_
  refine (keeps_ofExcept_any _).bind fun pool _ => (keeps_ofExcept_any _).bind fun name _ => ?_
  split
  · exact keeps_throw_bind _ _
  refine (keeps_superclass keeps className pool file.superClass).bind fun above built => ?_
  refine (keeps_mapM (keeps_interface keeps className pool)).bind fun interfaces allBuilt => ?_
  dsimp only
  split
  · exact keeps_throw_bind _ _
  · exact keeps_ofExcept fun linked => Link.tablesBuilt_of_link built allBuilt

theorem mem_of_lookup {loaded : LoadedClasses} {name : String} {c : LinkedClass}
    (found : loaded.lookup name = some c) : (name, c) ∈ loaded := by
  obtain ⟨before, after, rfl, -⟩ := List.lookup_eq_some_iff.mp found
  exact List.mem_append_right before List.mem_cons_self

theorem keeps_cached {make : Loading LinkedClass} (keeps : Keeps TablesBuilt make)
    (loading : List String) (name : String) : Keeps TablesBuilt (cached loading name make) := by
  refine keeps_get.bind fun loaded built => ?_
  cases found : loaded.lookup name with
  | some c => exact keeps_pure (built _ (mem_of_lookup found))
  | none =>
    dsimp only
    split
    · exact keeps_throw _
    · exact keeps.bind fun c => keeps_publish

/-- The class of arrays is made from the class of the elements, if they have one. -/
theorem keeps_arrayClass {element : Loading (Option LinkedClass)} {object : Loading LinkedClass}
    (elementKeeps : Keeps (fun found => ∀ c ∈ found, c.TablesBuilt) element)
    (objectKeeps : Keeps TablesBuilt object) (name : String) (component : FieldType) :
    Keeps TablesBuilt (do
      let element ← element
      let object ← object
      return Link.arrayClass name component element object) :=
  elementKeeps.bind fun _ built => objectKeeps.bind fun _ objectBuilt =>
    keeps_pure (Link.tablesBuilt_arrayClass built objectBuilt)

theorem keeps_array {load : List String → Load}
    (keeps : ∀ loading name, Keeps TablesBuilt (load loading name)) (component : FieldType)
    (loading : List String) : Keeps TablesBuilt (array load loading component) := by
  have one {action : Loading LinkedClass} (actionKeeps : Keeps TablesBuilt action) :
      Keeps (fun found : Option LinkedClass => ∀ c ∈ found, c.TablesBuilt) (some <$> action) := by
    refine actionKeeps.map fun c built => ?_
    rintro _ ⟨⟩
    exact built
  have noElement : Keeps (fun found : Option LinkedClass => ∀ c ∈ found, c.TablesBuilt)
      (pure none) :=
    keeps_pure nofun
  induction component generalizing loading with
  | object elementName =>
    rw [array]
    exact keeps_cached (keeps_arrayClass (one (keeps _ _)) (keeps _ _) _ _) loading _
  | array inner ih =>
    rw [array]
    exact keeps_cached (keeps_arrayClass (one (ih _)) (keeps _ _) _ _) loading _
  | byte | char | double | float | int | long | short | boolean =>
    rw [array]
    exact keeps_cached (keeps_arrayClass noElement (keeps _ _) _ _) loading _

theorem keeps_resolve (sources : List ClassSource) (depth : Nat) (loading : List String)
    (name : String) : Keeps TablesBuilt (resolve sources depth loading name) := by
  induction depth generalizing loading name with
  | zero => exact keeps_throw _
  | succ depth ih =>
    rw [resolve.eq_def]
    dsimp only
    split
    · split
      · exact keeps_array ih _ loading
      · exact keeps_throw _
    · exact keeps_cached (keeps_define (ih _) sources name) loading name

end Classes

/-! ## What a loader can build -/

section Builds

variable {sources : List ClassSource}

/-- What a loader may have loaded at some time: nothing at first, and then what each load leaves
behind, whether it ends well or not. -/
inductive Reachable (sources : List ClassSource) : LoadedClasses → Prop where
  | nothing : Reachable sources []
  | loaded {before after : LoadedClasses} {name : String} {c : LinkedClass}
      (reachable : Reachable sources before) (ended : load sources name before = .ok c after) :
      Reachable sources after
  | failed {before after : LoadedClasses} {name : String} {error : Error}
      (reachable : Reachable sources before)
      (ended : load sources name before = .error error after) : Reachable sources after

/-- The classes that a loader can build: those that it keeps or gives out at some time, and those
that such a class refers to. -/
inductive Builds (sources : List ClassSource) : LinkedClass → Prop where
  | kept {loaded : LoadedClasses} {name : String} {c : LinkedClass}
      (reachable : Reachable sources loaded) (member : (name, c) ∈ loaded) : Builds sources c
  | given {before after : LoadedClasses} {name : String} {c : LinkedClass}
      (reachable : Reachable sources before) (ended : load sources name before = .ok c after) :
      Builds sources c
  | superclass {c above : LinkedClass} (below : Builds sources c)
      (extended : c.superclass = some above) : Builds sources above
  | interface {c above : LinkedClass} (below : Builds sources c)
      (implemented : above ∈ c.interfaces) : Builds sources above
  | element {c inner : LinkedClass} (outer : Builds sources c)
      (contained : c.element = some inner) : Builds sources inner

theorem Reachable.allBuilt {loaded : LoadedClasses}
    (reachable : Reachable sources loaded) : AllBuilt loaded := by
  induction reachable with
  | nothing => exact nofun
  | @loaded before after name c _ ended ih =>
    have kept := keeps_resolve sources (depthBound sources) [] name before ih
    rw [← load, ended] at kept
    exact kept.2
  | @failed before after name error _ ended ih =>
    have kept := keeps_resolve sources (depthBound sources) [] name before ih
    rw [← load, ended] at kept
    exact kept

theorem Builds.tablesBuilt {c : LinkedClass}
    (builds : Builds sources c) : c.TablesBuilt := by
  induction builds with
  | kept reachable member => exact reachable.allBuilt _ member
  | @given before after name c reachable ended =>
    have kept := keeps_resolve sources (depthBound sources) [] name before reachable.allBuilt
    rw [← load, ended] at kept
    exact kept.1
  | superclass _ extended built =>
    cases built with
    | mk superclassBuilt _ _ => exact superclassBuilt _ extended
  | interface _ implemented built =>
    cases built with
    | mk _ interfacesBuilt _ => exact interfacesBuilt _ implemented
  | element _ contained built =>
    cases built with
    | mk _ _ elementBuilt => exact elementBuilt _ contained

end Builds

/-! ## A hierarchy of one class -/

/-- A class that is not loaded yet, nor being loaded, is defined and kept. -/
theorem resolve_eq_ok {sources : List ClassSource} {depth : Nat} {loading : List String}
    {name : String} {before after : LoadedClasses} {c : LinkedClass}
    (plain : name.startsWith "[" = false) (missing : before.lookup name = none)
    (idle : loading.contains name = false)
    (defined : define (resolve sources depth (name :: loading)) sources name before =
      .ok c after) :
    resolve sources (depth + 1) loading name before = .ok c ((c.name, c) :: after) := by
  rw [resolve.eq_def]
  simp only [plain, Bool.false_eq_true, ↓reduceIte, cached, Bind.bind, EStateM.bind, get, getThe,
    MonadStateOf.get, EStateM.get, missing, idle, defined]
  rfl

/-- The file of a root class with one native method `m`. -/
def rootFile : ClassFile where
  minorVersion := 0
  majorVersion := 52
  pool := #[
    .utf8 [106, 97, 118, 97, 47, 108, 97, 110, 103, 47, 79, 98, 106, 101, 99, 116],
    .classRef 1, .utf8 [109], .utf8 [40, 41, 86]]
  flags := ⟨0x0021⟩
  thisClass := 2
  superClass := 0
  interfaces := []
  fields := []
  methods := [⟨⟨0x0101⟩, 3, 4, []⟩]
  attributes := []

def rootBytes : List UInt8 :=
  [0xca, 0xfe, 0xba, 0xbe, 0, 0, 0, 52,
    0, 5, 1, 0, 16, 106, 97, 118, 97, 47, 108, 97, 110, 103, 47, 79, 98, 106, 101, 99, 116,
    7, 0, 1, 1, 0, 1, 109, 1, 0, 3, 40, 41, 86,
    0, 0x21, 0, 2, 0, 0, 0, 0, 0, 0, 0, 1, 1, 1, 0, 3, 0, 4, 0, 0, 0, 0]

/-- What the constants of the root class mean. -/
def rootPool : Array Constant :=
  #[.utf8 ClassName.object, .classRef ClassName.object, .utf8 "m", .utf8 "()V"]

/-- The root class as it is linked. -/
def rootClass : LinkedClass :=
  let methods := #[⟨⟨0x0101⟩, "m", "()V", ⟨[], none⟩, none⟩]
  .mk ⟨ClassName.object, ⟨0x0021⟩, rootPool, [], [], methods, none, none⟩ none [] none
    (MethodTable.build methods none [])

/-- A source that has the root class only. -/
def rootSource : ClassSource :=
  .memory [(ClassName.object, rootBytes)]

theorem load_root :
    load [rootSource] ClassName.object [] = .ok rootClass [(ClassName.object, rootClass)] := by
  have plain : ClassName.object.startsWith "[" = false := by simp [ClassName.object]
  refine resolve_eq_ok plain rfl rfl ?_
  change _ = EStateM.Result.ok rootClass []
  have bytes : findClass ClassName.object [rootSource] = .ok rootBytes := rfl
  have file : ClassFile.read rootBytes = .ok rootFile := by cbv
  have pool : Constant.resolvePool rootFile.pool = .ok rootPool := by cbv
  have name : Link.classNameAt rootPool rootFile.thisClass = .ok ClassName.object := rfl
  have given {α : Type} (value : α) : (Loader.ofExcept (.ok value) : Loading α) = pure value := rfl
  simp only [define, bytes, given, pure_bind, file, Except.mapError]
  simp only [given, pure_bind, pool, name, bne_self_eq_false, Bool.false_eq_true, ↓reduceIte]
  rfl

end Loader

end JavaMachine
