import JavaMachine.Proofs.Class.Definition

/-! # Loading in lockstep

The loader compared with another way of loading the same classes, which may keep its books
differently or keep none. Both read and link alike and differ in what surrounds the making of a
class (`Loader.LoadRules`). If what surrounds it corresponds, the two give the same class or the
same error (`Loader.Shadows.loads`). On the way the loader is shown to keep its own books well: what
it has loaded are classes that the sources define, linked to each other, and what is being loaded is
not among them. -/

namespace JavaMachine.Loader

variable {sources : List ClassSource} {σ τ α β : Type}

/-! ## Another way of loading -/

/-- The class of arrays with a name, given ways to the class of its elements, if they have one, and
to `java/lang/Object`. -/
def arrayFrom (name : String) (component : FieldType) (element : LoadingOn σ (Option LinkedClass))
    (object : LoadingOn σ LinkedClass) : LoadingOn σ LinkedClass := do
  let element ← element
  let object ← object
  return Link.arrayClass name component element object

/-- What a way of loading does around the making of a class. -/
structure LoadRules (τ : Type) where
  /-- What surrounds the making of the class with a name, while others are being loaded. -/
  enter : List String → String → LoadingOn τ LinkedClass → LoadingOn τ LinkedClass
  /-- What becomes of a name that spells no type. -/
  refuse : String → LoadingOn τ LinkedClass
  /-- What becomes of a name when no depth is left. -/
  stop : String → LoadingOn τ LinkedClass

namespace LoadRules

/-- The class of arrays with elements of a type. -/
def array (rules : LoadRules τ) (load : List String → LoadOn τ) (loading : List String)
    (component : FieldType) : LoadingOn τ LinkedClass :=
  let name := (FieldType.array component).descriptor
  let element := match component with
    | .object elementName => some <$> load (name :: loading) elementName
    | .array inner => some <$> rules.array load (name :: loading) inner
    | _ => pure none
  rules.enter loading name
    (arrayFrom name component element (load (name :: loading) ClassName.object))

/-- The class with a name, while others are being loaded and up to a depth. -/
def resolve (rules : LoadRules τ) (sources : List ClassSource) : Nat → List String → LoadOn τ
  | 0, _, name => rules.stop name
  | depth + 1, loading, name =>
    if name.startsWith "[" then
      match FieldType.ofDescriptor? name with
      | some (.array component) => rules.array (rules.resolve sources depth) loading component
      | _ => rules.refuse name
    else
      rules.enter loading name (define (rules.resolve sources depth (name :: loading)) sources name)

end LoadRules

/-! ## The books of the loader -/

/-- Whether a class that the sources define is loaded. -/
def Known (sources : List ClassSource) (loaded : LoadedClasses) (c : LinkedClass) : Prop :=
  Defines sources c ∧ loaded.lookup c.name = some c

/-- What is loaded is known by its own name, and so is all it is linked to. -/
def Sound (sources : List ClassSource) (loaded : LoadedClasses) : Prop :=
  ∀ name c, loaded.lookup name = some c →
    c.name = name ∧ Defines sources c ∧ ∀ d, c.LinksTo d → loaded.lookup d.name = some d

/-- Nothing that is being loaded is loaded. -/
def Idle (loading : List String) (loaded : LoadedClasses) : Prop :=
  ∀ name ∈ loading, loaded.lookup name = none

/-- What is loaded stays loaded, and what comes in addition has a name in a scope. -/
def Grows (scope : String → Prop) (before after : LoadedClasses) : Prop :=
  ∀ name, after.lookup name = before.lookup name ∨ before.lookup name = none ∧ scope name

section Grows

variable {scope : String → Prop}

theorem grows_refl (loaded : LoadedClasses) : Grows scope loaded loaded :=
  fun _ => .inl rfl

theorem Grows.trans {first second third : LoadedClasses} (early : Grows scope first second)
    (late : Grows scope second third) : Grows scope first third := by
  intro name
  rcases early name with same | ⟨missing, inScope⟩
  · rw [← same]
    exact late name
  · exact .inr ⟨missing, inScope⟩

theorem Grows.lookup {before after : LoadedClasses} {name : String} {c : LinkedClass}
    (grows : Grows scope before after) (found : before.lookup name = some c) :
    after.lookup name = some c := by
  rcases grows name with same | ⟨missing, -⟩
  · rw [same, found]
  · rw [found] at missing
    cases missing

theorem Known.grows {before after : LoadedClasses} {c : LinkedClass}
    (known : Known sources before c) (grows : Grows scope before after) :
    Known sources after c :=
  ⟨known.1, grows.lookup known.2⟩

theorem Sound.known {loaded : LoadedClasses} {name : String} {c : LinkedClass}
    (sound : Sound sources loaded) (found : loaded.lookup name = some c) :
    c.name = name ∧ Known sources loaded c := by
  obtain ⟨rfl, defined, -⟩ := sound name c found
  exact ⟨rfl, defined, found⟩

theorem lookup_cons_self (name : String) (c : LinkedClass) (loaded : LoadedClasses) :
    ((name, c) :: loaded).lookup name = some c := by
  rw [List.lookup_cons, beq_self_eq_true]

theorem lookup_cons_ne {name other : String} (c : LinkedClass) (loaded : LoadedClasses)
    (differ : other ≠ name) : ((name, c) :: loaded).lookup other = loaded.lookup other := by
  rw [List.lookup_cons, beq_false_of_ne differ]

theorem grows_cons {name : String} {loaded : LoadedClasses} (c : LinkedClass)
    (missing : loaded.lookup name = none) (inScope : scope name) :
    Grows scope loaded ((name, c) :: loaded) := by
  intro other
  by_cases same : other = name
  · subst same
    exact .inr ⟨missing, inScope⟩
  · exact .inl (lookup_cons_ne c loaded same)

/-- A class may be added when all it is linked to is there. -/
theorem Sound.cons {loaded : LoadedClasses} {c : LinkedClass} (sound : Sound sources loaded)
    (missing : loaded.lookup c.name = none) (defined : Defines sources c)
    (linked : ∀ d, c.LinksTo d → Known sources loaded d) :
    Sound sources ((c.name, c) :: loaded) := by
  have grows : Grows (fun _ => True) loaded ((c.name, c) :: loaded) :=
    grows_cons c missing trivial
  intro name d found
  by_cases same : name = c.name
  · subst same
    rw [lookup_cons_self] at found
    obtain rfl := Option.some.inj found
    exact ⟨rfl, defined, fun e links => grows.lookup (linked e links).2⟩
  · rw [lookup_cons_ne c loaded same] at found
    obtain ⟨rfl, defined', linked'⟩ := sound name d found
    exact ⟨rfl, defined', fun e links => grows.lookup (linked' e links)⟩

/-- A class that has been loaded is no longer being loaded. -/
theorem Idle.cons {loading : List String} {loaded : LoadedClasses} {name : String}
    (idle : Idle (name :: loading) loaded) (outside : name ∉ loading) (c : LinkedClass) :
    Idle loading ((name, c) :: loaded) := by
  intro other member
  rw [lookup_cons_ne c loaded (ne_of_mem_of_not_mem member outside)]
  exact idle other (List.mem_cons_of_mem name member)

end Grows

/-! ## Steps in lockstep -/

section Lockstep

variable {scope : String → Prop} {R : List String → LoadedClasses → τ → Prop}

variable (sources R) in
/-- The loader keeps its books well and the other way of loading keeps books that match. -/
structure Joint (loading : List String) (loaded : LoadedClasses) (other : τ) : Prop where
  sound : Sound sources loaded
  idle : Idle loading loaded
  matching : R loading loaded other

variable (sources scope R) in
/-- Two ends with the same result or the same error. The books match, only names in the scope are
new, and a result is good. -/
inductive Alike (loading : List String) (before : LoadedClasses) (good : α → LoadedClasses → Prop) :
    EStateM.Result Error LoadedClasses α → EStateM.Result Error τ α → Prop where
  | ok {value : α} {after : LoadedClasses} {after' : τ}
      (joint : Joint sources R loading after after') (grows : Grows scope before after)
      (holds : good value after) :
      Alike loading before good (.ok value after) (.ok value after')
  | error {error : Error} {after : LoadedClasses} {after' : τ}
      (joint : Joint sources R loading after after') (grows : Grows scope before after) :
      Alike loading before good (.error error after) (.error error after')

variable (sources scope R) in
/-- Both ways of loading give the class with a name. -/
def Loads (loading : List String) (name : String) (action : Loading LinkedClass)
    (action' : LoadingOn τ LinkedClass) : Prop :=
  ∀ before before', Joint sources R loading before before' →
    Alike sources scope R loading before (fun c after => c.name = name ∧ Known sources after c)
      (action before) (action' before')

variable (sources scope R) in
/-- Both ways of loading make the class with a name, once all it is linked to is loaded. -/
def Makes (loading : List String) (name : String) (action : Loading LinkedClass)
    (action' : LoadingOn τ LinkedClass) : Prop :=
  ∀ before before', Joint sources R loading before before' →
    Alike sources scope R loading before
      (fun c after => c.name = name ∧ Defines sources c ∧ ∀ d, c.LinksTo d → Known sources after d)
      (action before) (action' before')

variable {loading : List String} {before : LoadedClasses} {before' : τ}
  {good : α → LoadedClasses → Prop} {fine : β → LoadedClasses → Prop}

theorem Joint.done {value : α} (joint : Joint sources R loading before before')
    (holds : good value before) :
    Alike sources scope R loading before good ((pure value : Loading α) before)
      ((pure value : LoadingOn τ α) before') :=
  .ok joint (grows_refl before) holds

theorem Joint.fails {error : Error} (joint : Joint sources R loading before before') :
    Alike sources scope R loading before good ((throw error : Loading α) before)
      ((throw error : LoadingOn τ α) before') :=
  .error joint (grows_refl before)

theorem Joint.fails_bind {error : Error} {next : β → Loading α} {next' : β → LoadingOn τ α}
    (joint : Joint sources R loading before before') :
    Alike sources scope R loading before good ((throw error >>= next) before)
      ((throw error >>= next') before') :=
  .error joint (grows_refl before)

theorem Alike.of_ok {value : α} {after : LoadedClasses} {result' : EStateM.Result Error τ α}
    (alike : Alike sources scope R loading before good (.ok value after) result') :
    ∃ after', result' = .ok value after' ∧ Joint sources R loading after after' ∧
      Grows scope before after ∧ good value after := by
  cases alike with
  | ok joint grows holds => exact ⟨_, rfl, joint, grows, holds⟩

theorem Alike.of_error {error : Error} {after : LoadedClasses} {result' : EStateM.Result Error τ α}
    (alike : Alike sources scope R loading before good (.error error after) result') :
    ∃ after', result' = .error error after' ∧ Joint sources R loading after after' ∧
      Grows scope before after := by
  cases alike with
  | error joint grows => exact ⟨_, rfl, joint, grows⟩

/-- An end after something else has come in before. -/
theorem Alike.after_growth {start : LoadedClasses} {result : EStateM.Result Error LoadedClasses α}
    {result' : EStateM.Result Error τ α}
    (alike : Alike sources scope R loading before good result result')
    (grows : Grows scope start before) :
    Alike sources scope R loading start good result result' := by
  cases alike with
  | ok joint late holds => exact .ok joint (grows.trans late) holds
  | error joint late => exact .error joint (grows.trans late)

theorem Alike.bind {action : Loading α} {action' : LoadingOn τ α} {next : α → Loading β}
    {next' : α → LoadingOn τ β}
    (first : Alike sources scope R loading before good (action before) (action' before'))
    (second : ∀ value after after', Joint sources R loading after after' →
      Grows scope before after → good value after →
      Alike sources scope R loading after fine (next value after) (next' value after')) :
    Alike sources scope R loading before fine ((action >>= next) before)
      ((action' >>= next') before') := by
  cases ended : action before with
  | ok value after =>
    rw [ended] at first
    obtain ⟨after', ended', joint, grows, holds⟩ := first.of_ok
    have step : (action >>= next) before = next value after := by
      simp only [Bind.bind, EStateM.bind, ended]
    have step' : (action' >>= next') before' = next' value after' := by
      simp only [Bind.bind, EStateM.bind, ended']
    rw [step, step']
    exact (second value after after' joint grows holds).after_growth grows
  | error error after =>
    rw [ended] at first
    obtain ⟨after', ended', joint, grows⟩ := first.of_error
    have step : (action >>= next) before = .error error after := by
      simp only [Bind.bind, EStateM.bind, ended]
    have step' : (action' >>= next') before' = .error error after' := by
      simp only [Bind.bind, EStateM.bind, ended']
    rw [step, step']
    exact .error joint grows

theorem Alike.map {action : Loading α} {action' : LoadingOn τ α} {change : α → β}
    (first : Alike sources scope R loading before good (action before) (action' before'))
    (second : ∀ value after, good value after → fine (change value) after) :
    Alike sources scope R loading before fine ((change <$> action) before)
      ((change <$> action') before') := by
  rw [map_eq_pure_bind, map_eq_pure_bind]
  exact first.bind fun value after after' joint _ holds => joint.done (second value after holds)

/-- What needs no loading is done alike. -/
theorem Joint.ofExcept_bind {result : Except Error α} {next : α → Loading β}
    {next' : α → LoadingOn τ β} (joint : Joint sources R loading before before')
    (second : ∀ value, result = .ok value →
      Alike sources scope R loading before fine (next value before) (next' value before')) :
    Alike sources scope R loading before fine ((ofExcept result >>= next) before)
      ((ofExcept result >>= next') before') := by
  cases result with
  | error error => exact .error joint (grows_refl before)
  | ok value => exact second value rfl

theorem Joint.ofExcept {result : Except Error α} (joint : Joint sources R loading before before')
    (holds : ∀ value, result = .ok value → good value before) :
    Alike sources scope R loading before good ((ofExcept result : Loading α) before)
      ((ofExcept result : LoadingOn τ α) before') := by
  cases result with
  | error error => exact joint.fails
  | ok value => exact joint.done (holds value rfl)

theorem Alike.orMissing {action : Loading α} {action' : LoadingOn τ α}
    {className dependency : String} {fault : LoadFault}
    (first : Alike sources scope R loading before good (action before) (action' before')) :
    Alike sources scope R loading before good
      (orMissing className dependency fault action before)
      (orMissing className dependency fault action' before') := by
  have stepOk {ρ : Type} {run : LoadingOn ρ α} {start after : ρ} {value : α}
      (ended : run start = .ok value after) :
      Loader.orMissing className dependency fault run start = .ok value after := by
    simp only [Loader.orMissing, MonadExcept.tryCatch, tryCatchThe, MonadExceptOf.tryCatch,
      EStateM.tryCatch, ended]
  have stepError {ρ : Type} {run : LoadingOn ρ α} {start after : ρ} {error : Error}
      (ended : run start = .error error after) :
      Loader.orMissing className dependency fault run start =
        .error (if error = .classLoad dependency .notFound then .classLoad className fault
          else error) after := by
    simp only [Loader.orMissing, MonadExcept.tryCatch, tryCatchThe, MonadExceptOf.tryCatch,
      EStateM.tryCatch, ended]
    split <;> rfl
  cases ended : action before with
  | ok value after =>
    rw [ended] at first
    obtain ⟨after', ended', joint, grows, holds⟩ := first.of_ok
    rw [stepOk ended, stepOk ended']
    exact .ok joint grows holds
  | error error after =>
    rw [ended] at first
    obtain ⟨after', ended', joint, grows⟩ := first.of_error
    rw [stepError ended, stepError ended']
    exact .error joint grows

theorem Joint.mapM {items : List α} {action : α → Loading β} {action' : α → LoadingOn τ β}
    (fits : α → β → LoadedClasses → Prop)
    (stable : ∀ item result early late, Grows scope early late → fits item result early →
      fits item result late)
    (each : ∀ item ∈ items, ∀ before before', Joint sources R loading before before' →
      Alike sources scope R loading before (fits item) (action item before)
        (action' item before'))
    (joint : Joint sources R loading before before') :
    Alike sources scope R loading before
      (fun results after => List.Forall₂ (fun item result => fits item result after) items results)
      (items.mapM action before) (items.mapM action' before') := by
  induction items generalizing before before' with
  | nil =>
    rw [List.mapM_nil, List.mapM_nil]
    exact joint.done .nil
  | cons first rest ih =>
    rw [List.mapM_cons, List.mapM_cons]
    refine (each first List.mem_cons_self _ _ joint).bind fun result _ _ joint _ holds => ?_
    have others := ih (fun item member => each item (List.mem_cons_of_mem first member)) joint
    refine others.bind fun results after _ joint grows hold => joint.done ?_
    exact .cons (stable first result _ after grows holds) hold

end Lockstep

/-! ## Making a class -/

section Making

variable {scope : String → Prop} {R : List String → LoadedClasses → τ → Prop}
  {loading : List String} {before : LoadedClasses} {before' : τ}
  {load : Load} {load' : LoadOn τ} {name : String} {file : ClassFile} {pool : Array Constant}

theorem Joint.superclass (described : Describes sources name file pool)
    (each : ∀ needed, Needs sources name needed →
      Loads sources scope R loading needed (load needed) (load' needed))
    (joint : Joint sources R loading before before') :
    Alike sources scope R loading before
      (fun found after => SuperclassFits name pool file.superClass found ∧
        ∀ above ∈ found, Known sources after above)
      (superclass load name pool file.superClass before)
      (superclass load' name pool file.superClass before') := by
  unfold Loader.superclass
  by_cases absent : file.superClass = 0
  · rw [if_pos absent, if_pos absent]
    by_cases top : (name == ClassName.object) = true
    · rw [if_pos top, if_pos top]
      exact joint.done ⟨⟨absent, beq_iff_eq.mp top⟩, nofun⟩
    · rw [if_neg top, if_neg top]
      exact joint.fails
  · rw [if_neg absent, if_neg absent]
    refine joint.ofExcept_bind fun above named => ?_
    have loads := each above (.superclass described absent named) _ _ joint
    refine loads.orMissing.bind fun c after _ joint _ ⟨same, known⟩ => ?_
    dsimp only
    split
    · exact joint.fails_bind
    · next extensible =>
      split
      · exact joint.fails_bind
      · next open' =>
        refine joint.done ⟨⟨absent, same ▸ named, ?_, ?_⟩, ?_⟩
        · exact Bool.eq_false_iff.mpr extensible
        · exact Bool.eq_false_iff.mpr open'
        · rintro _ ⟨⟩
          exact known

theorem Joint.interface {index : UInt16} (described : Describes sources name file pool)
    (listed : index ∈ file.interfaces)
    (each : ∀ needed, Needs sources name needed →
      Loads sources scope R loading needed (load needed) (load' needed))
    (joint : Joint sources R loading before before') :
    Alike sources scope R loading before
      (fun above after => InterfaceFits pool index above ∧ Known sources after above)
      (interface load name pool index before) (interface load' name pool index before') := by
  unfold Loader.interface
  refine joint.ofExcept_bind fun above named => ?_
  have loads := each above (.interface described listed named) _ _ joint
  refine loads.orMissing.bind fun c after _ joint _ ⟨same, known⟩ => ?_
  dsimp only
  split
  · exact joint.fails_bind
  · next kind => exact joint.done ⟨⟨same ▸ named, by simpa using kind⟩, known⟩

/-- **A class is made alike from its file**, if what the file needs is loaded alike. -/
theorem makes_define (plain : name.startsWith "[" = false)
    (each : ∀ file pool, Describes sources name file pool →
      Link.classNameAt pool file.thisClass = .ok name → ∀ needed, Needs sources name needed →
      Loads sources scope R loading needed (load needed) (load' needed)) :
    Makes sources scope R loading name (define load sources name) (define load' sources name) := by
  intro before before' joint
  unfold define
  refine joint.ofExcept_bind fun bytes found => joint.ofExcept_bind fun file read => ?_
  refine joint.ofExcept_bind fun pool resolved => joint.ofExcept_bind fun own named => ?_
  have isRead : ClassFile.read bytes = .ok file := by
    cases ended : ClassFile.read bytes with
    | error fault =>
      rw [ended] at read
      cases read
    | ok file' =>
      rw [ended] at read
      exact congrArg Except.ok (Except.ok.inj read)
  have described : Describes sources name file pool := ⟨plain, ⟨bytes, found, isRead⟩, resolved⟩
  dsimp only
  split
  · exact joint.fails_bind
  next same =>
  obtain rfl : own = name := by simpa using same
  have each := each file pool described named
  refine (joint.superclass described each).bind ?_
  intro superclass _ _ joint _ ⟨superclassFits, superclassKnown⟩
  have interfaces := Joint.mapM
    (fun index above after => InterfaceFits pool index above ∧ Known sources after above)
    (fun _ _ _ _ grows ⟨fits, known⟩ => ⟨fits, known.grows grows⟩)
    (fun index listed _ _ joint => joint.interface described listed each) joint
  refine interfaces.bind fun interfaces after _ joint grows interfacesFit => ?_
  have interfacesKnown : ∀ above ∈ interfaces, Known sources after above := by
    intro above member
    obtain ⟨position, inside, rfl⟩ := List.getElem_of_mem member
    have inside' : position < file.interfaces.length := interfacesFit.length_eq ▸ inside
    exact (interfacesFit.get inside' inside).2
  have superclassKnown' : ∀ above ∈ superclass, Known sources after above :=
    fun above member => (superclassKnown above member).grows grows
  split
  · exact joint.fails_bind
  next rooted =>
  refine joint.ofExcept fun c linked => ?_
  obtain ⟨nameEq, -, superclassEq, interfacesEq, elementEq, -⟩ := Link.parts_of_link linked
  refine ⟨nameEq, ?_, ?_⟩
  · refine .file described named superclassFits (interfacesFit.imp fun _ _ => And.left) ?_
      (fun above member => (superclassKnown' above member).1)
      (fun above member => (interfacesKnown above member).1) linked
    rintro isInterface above ⟨⟩
    by_contra differs
    exact rooted (by simp [isInterface, differs])
  · intro d links
    cases links with
    | superclass extended => exact superclassKnown' d (superclassEq ▸ extended)
    | interface implemented => exact interfacesKnown d (interfacesEq ▸ implemented)
    | element contained => cases elementEq.symm.trans contained

/-- An array class is made alike from the class of its elements. -/
theorem makes_arrayFrom {component : FieldType}
    (spelled : FieldType.ofDescriptor? name = some (.array component))
    {element : Loading (Option LinkedClass)} {element' : LoadingOn τ (Option LinkedClass)}
    {object : Loading LinkedClass} {object' : LoadingOn τ LinkedClass}
    (elementLoads : ∀ before before', Joint sources R loading before before' →
      Alike sources scope R loading before
        (fun found after =>
          ElementFits component found ∧ ∀ inner ∈ found, Known sources after inner)
        (element before) (element' before'))
    (objectLoads : Loads sources scope R loading ClassName.object object object') :
    Makes sources scope R loading name (arrayFrom name component element object)
      (arrayFrom name component element' object') := by
  intro before before' joint
  refine (elementLoads _ _ joint).bind fun element _ _ joint _ ⟨elementFits, elementKnown⟩ => ?_
  refine (objectLoads _ _ joint).bind fun object _ _ joint grows ⟨root, objectKnown⟩ => ?_
  refine joint.done ⟨rfl, ?_, ?_⟩
  · exact .array spelled elementFits root (fun inner member => (elementKnown inner member).1)
      objectKnown.1
  · intro d links
    cases links with
    | superclass extended =>
      obtain rfl := Option.some.inj extended
      exact objectKnown
    | interface implemented => cases implemented
    | element contained => exact (elementKnown d contained).grows grows

end Making

/-! ## Whole loads in lockstep -/

/-- When a depth is enough for a name, while others are being loaded: it is then enough for all that
the name needs. -/
structure Descends (sources : List ClassSource) (enough : Nat → List String → String → Prop) :
    Prop where
  file {depth : Nat} {loading : List String} {name needed : String} {file : ClassFile}
    {pool : Array Constant} (described : Describes sources name file pool)
    (named : Link.classNameAt pool file.thisClass = .ok name) (outside : name ∉ loading)
    (before : enough (depth + 1) loading name) : enough depth (name :: loading) needed
  element {depth : Nat} {loading : List String} {name elementName : String}
    (spelled : FieldType.ofDescriptor? name = some (.array (.object elementName)))
    (before : enough (depth + 1) loading name) : enough depth (name :: loading) elementName
  inner {depth : Nat} {loading : List String} {name : String} {component : FieldType}
    (spelled : FieldType.ofDescriptor? name = some (.array (.array component)))
    (before : enough (depth + 1) loading name) :
    enough (depth + 1) (name :: loading) (FieldType.array component).descriptor
  root {depth : Nat} {loading : List String} {name : String} {component : FieldType}
    (spelled : FieldType.ofDescriptor? name = some (.array component))
    (before : enough (depth + 1) loading name) : enough depth (name :: loading) ClassName.object

/-- Whether a name can have a class at all: one that is written like that of an array spells one. -/
def Proper (name : String) : Prop :=
  name.startsWith "[" = true → ∃ component, FieldType.ofDescriptor? name = some (.array component)

/-- A way of loading whose books match those of the loader, as long as there is enough depth. -/
structure Shadows (sources : List ClassSource) (R : List String → LoadedClasses → τ → Prop)
    (rules : LoadRules τ) (enough : Nat → List String → String → Prop) : Prop where
  /-- A loaded class is given out, and nothing changes. -/
  loaded {depth : Nat} {loading : List String} {name : String} {loaded : LoadedClasses} {other : τ}
    {c : LinkedClass} (depthEnough : enough (depth + 1) loading name)
    (joint : Joint sources R loading loaded other) (found : loaded.lookup name = some c) :
    rules.resolve sources (depth + 1) loading name other = .ok c other
  /-- A class that is being loaded is refused. -/
  busy {loading : List String} {name : String} {make : LoadingOn τ LinkedClass}
    {loaded : LoadedClasses} {other : τ} (joint : Joint sources R loading loaded other)
    (member : name ∈ loading) :
    rules.enter loading name make other = .error (.classLoad name .cyclicInheritance) other
  /-- Any other class is made, and the books match while it is made and after it is made. -/
  fresh {loading : List String} {name : String} (make : LoadingOn τ LinkedClass)
    {loaded : LoadedClasses} {other : τ} (joint : Joint sources R loading loaded other)
    (outside : name ∉ loading) (missing : loaded.lookup name = none)
    (proper : Proper name) :
    ∃ entered, R (name :: loading) loaded entered ∧
      (∀ c after ended, c.name = name → R (name :: loading) after ended →
        make entered = .ok c ended →
        ∃ left, rules.enter loading name make other = .ok c left ∧
          R loading ((name, c) :: after) left) ∧
      (∀ error after ended, after.lookup name = none → R (name :: loading) after ended →
        make entered = .error error ended →
        ∃ left, rules.enter loading name make other = .error error left ∧ R loading after left)
  /-- A name that spells no type is refused. -/
  refuse {loading : List String} {name : String} {loaded : LoadedClasses} {other : τ}
    (joint : Joint sources R loading loaded other) (improper : ¬ Proper name) :
    rules.refuse name other = .error (.classLoad name .notFound) other
  /-- At the end of the depth there is an error, unless that is never reached. -/
  stop {loading : List String} {name : String} {loaded : LoadedClasses} {other : τ}
    (depthEnough : enough 0 loading name) (joint : Joint sources R loading loaded other) :
    rules.stop name other = .error (.classLoad name .cyclicInheritance) other

section Shadows

variable {scope : String → Prop} {R : List String → LoadedClasses → τ → Prop}
  {rules : LoadRules τ} {enough : Nat → List String → String → Prop}

theorem cached_of_found {loading : List String} {name : String} {make : Loading LinkedClass}
    {loaded : LoadedClasses} {c : LinkedClass} (found : loaded.lookup name = some c) :
    cached loading name make loaded = .ok c loaded := by
  simp only [cached, Bind.bind, EStateM.bind, get, getThe, MonadStateOf.get, EStateM.get, found]
  rfl

theorem cached_of_mem {loading : List String} {name : String} {make : Loading LinkedClass}
    {loaded : LoadedClasses} (missing : loaded.lookup name = none) (member : name ∈ loading) :
    cached loading name make loaded = .error (.classLoad name .cyclicInheritance) loaded := by
  simp only [cached, Bind.bind, EStateM.bind, get, getThe, MonadStateOf.get, EStateM.get, missing,
    List.contains_iff_mem.mpr member]
  rfl

theorem cached_of_ok {loading : List String} {name : String} {make : Loading LinkedClass}
    {loaded after : LoadedClasses} {c : LinkedClass} (missing : loaded.lookup name = none)
    (outside : name ∉ loading) (made : make loaded = .ok c after) :
    cached loading name make loaded = .ok c ((c.name, c) :: after) := by
  have absent : loading.contains name = false := by simpa using outside
  simp only [cached, Bind.bind, EStateM.bind, get, getThe, MonadStateOf.get, EStateM.get, missing,
    absent, Bool.false_eq_true, ↓reduceIte, made]
  rfl

theorem cached_of_error {loading : List String} {name : String} {make : Loading LinkedClass}
    {loaded after : LoadedClasses} {error : Error} (missing : loaded.lookup name = none)
    (outside : name ∉ loading) (failed : make loaded = .error error after) :
    cached loading name make loaded = .error error after := by
  have absent : loading.contains name = false := by simpa using outside
  simp only [cached, Bind.bind, EStateM.bind, get, getThe, MonadStateOf.get, EStateM.get, missing,
    absent, Bool.false_eq_true, ↓reduceIte, failed]

/-- What surrounds the making of a class keeps the books matching. -/
theorem Shadows.loads_cached (shadows : Shadows sources R rules enough) {loading : List String}
    {name : String} {make : Loading LinkedClass} {make' : LoadingOn τ LinkedClass}
    (inScope : scope name) (proper : Proper name)
    (answers : ∀ loaded other c, Joint sources R loading loaded other →
      loaded.lookup name = some c → rules.enter loading name make' other = .ok c other)
    (makes : name ∉ loading → Makes sources scope R (name :: loading) name make make') :
    Loads sources scope R loading name (cached loading name make)
      (rules.enter loading name make') := by
  intro loaded other joint
  cases found : loaded.lookup name with
  | some c =>
    rw [cached_of_found found, answers loaded other c joint found]
    exact .ok joint (grows_refl loaded) (joint.sound.known found)
  | none =>
    by_cases member : name ∈ loading
    · rw [cached_of_mem found member, shadows.busy joint member]
      exact .error joint (grows_refl loaded)
    · obtain ⟨entered, matching, succeeds, fails⟩ :=
        shadows.fresh make' joint member found proper
      have idle : Idle (name :: loading) loaded := List.forall_mem_cons.mpr ⟨found, joint.idle⟩
      have alike := makes member loaded entered ⟨joint.sound, idle, matching⟩
      cases ended : make loaded with
      | error error after =>
        rw [ended] at alike
        obtain ⟨left, ended', joint', grows⟩ := alike.of_error
        obtain ⟨left', exits, matching'⟩ := fails error after left
          (joint'.idle name List.mem_cons_self) joint'.matching ended'
        rw [cached_of_error found member ended, exits]
        have idle' : Idle loading after := fun other inside =>
          joint'.idle other (List.mem_cons_of_mem name inside)
        exact .error ⟨joint'.sound, idle', matching'⟩ grows
      | ok c after =>
        rw [ended] at alike
        obtain ⟨left, ended', joint', grows, rfl, defined, linked⟩ := alike.of_ok
        obtain ⟨left', exits, matching'⟩ := succeeds c after left rfl joint'.matching ended'
        have missing : after.lookup c.name = none := joint'.idle c.name List.mem_cons_self
        rw [cached_of_ok found member ended, exits]
        refine .ok ⟨joint'.sound.cons missing defined linked, joint'.idle.cons member c, matching'⟩
          (grows.trans (grows_cons c missing inScope)) ⟨rfl, defined, ?_⟩
        exact lookup_cons_self c.name c after

variable (closed : ∀ name needed, scope name → Needs sources name needed → scope needed)
  (descends : Descends sources enough) (shadows : Shadows sources R rules enough)

theorem LoadRules.resolve_of_spelled {depth : Nat} {loading : List String} {name : String}
    {component : FieldType} (spelled : FieldType.ofDescriptor? name = some (.array component)) :
    rules.resolve sources (depth + 1) loading name =
      rules.array (rules.resolve sources depth) loading component := by
  rw [LoadRules.resolve.eq_def]
  dsimp only
  rw [if_pos (startsWith_of_spelled spelled)]
  simp only [spelled]

theorem LoadRules.resolve_of_improper {depth : Nat} {loading : List String} {name : String}
    (improper : ¬ Proper name) :
    rules.resolve sources (depth + 1) loading name = rules.refuse name := by
  have written : name.startsWith "[" = true := by
    by_contra plain
    exact improper fun starts => absurd starts plain
  rw [LoadRules.resolve.eq_def]
  dsimp only
  rw [if_pos written]
  split
  · next component spelled => exact absurd (fun _ => ⟨component, spelled⟩) improper
  · rfl

theorem resolve_of_improper {depth : Nat} {loading : List String} {name : String}
    (improper : ¬ Proper name) :
    Loader.resolve sources (depth + 1) loading name = throw (.classLoad name .notFound) := by
  have written : name.startsWith "[" = true := by
    by_contra plain
    exact improper fun starts => absurd starts plain
  rw [Loader.resolve.eq_def]
  dsimp only
  rw [if_pos written]
  split
  · next component spelled => exact absurd (fun _ => ⟨component, spelled⟩) improper
  · rfl

/-- What gives a class of elements gives the one that fits. -/
theorem Loads.element {loading : List String} {component : FieldType} {action : Loading LinkedClass}
    {action' : LoadingOn τ LinkedClass} {before : LoadedClasses} {before' : τ}
    (loads : Loads sources scope R loading component.className action action')
    (reference : component.isReference = true) (joint : Joint sources R loading before before') :
    Alike sources scope R loading before
      (fun found after => ElementFits component found ∧ ∀ inner ∈ found, Known sources after inner)
      ((some <$> action) before) ((some <$> action') before') := by
  refine (loads before before' joint).map fun c after ⟨named, known⟩ => ⟨?_, ?_⟩
  · rw [ElementFits, if_pos reference, Option.map_some, named]
  · rintro _ ⟨⟩
    exact known

theorem Joint.noElement {loading : List String} {component : FieldType}
    {before : LoadedClasses} {before' : τ} (joint : Joint sources R loading before before')
    (primitive : component.isReference = false) :
    Alike sources scope R loading before
      (fun found after => ElementFits component found ∧ ∀ inner ∈ found, Known sources after inner)
      ((pure none : Loading _) before) ((pure none : LoadingOn τ _) before') := by
  refine joint.done ⟨?_, nofun⟩
  rw [ElementFits, primitive]
  rfl

include closed descends shadows in
/-- An array is loaded alike, if the class of its elements is and if that holds with less depth. -/
theorem Shadows.loads_arrayFrom {depth : Nat}
    (each : ∀ loading name, enough depth loading name → scope name →
      Loads sources scope R loading name (Loader.resolve sources depth loading name)
        (rules.resolve sources depth loading name))
    {component : FieldType} {loading : List String} {name : String}
    (spelled : FieldType.ofDescriptor? name = some (.array component))
    (depthEnough : enough (depth + 1) loading name) (inScope : scope name)
    {element : Loading (Option LinkedClass)} {element' : LoadingOn τ (Option LinkedClass)}
    (unfolded : rules.array (rules.resolve sources depth) loading component =
      rules.enter loading name (arrayFrom name component element'
        (rules.resolve sources depth (name :: loading) ClassName.object)))
    (elementLoads : ∀ before before', Joint sources R (name :: loading) before before' →
      Alike sources scope R (name :: loading) before
        (fun found after =>
          ElementFits component found ∧ ∀ inner ∈ found, Known sources after inner)
        (element before) (element' before')) :
    Loads sources scope R loading name
      (cached loading name (arrayFrom name component element
        (Loader.resolve sources depth (name :: loading) ClassName.object)))
      (rules.array (rules.resolve sources depth) loading component) := by
  have rootLoads := each (name :: loading) ClassName.object (descends.root spelled depthEnough)
    (closed name _ inScope (.root spelled))
  rw [unfolded]
  refine shadows.loads_cached inScope (fun _ => ⟨component, spelled⟩) ?_ fun _ =>
    makes_arrayFrom spelled elementLoads rootLoads
  intro loaded other c joint found
  rw [← unfolded, ← LoadRules.resolve_of_spelled spelled]
  exact shadows.loaded depthEnough joint found

include closed descends shadows in
/-- Arrays are loaded alike, if that holds with less depth. -/
theorem Shadows.loads_array {depth : Nat}
    (each : ∀ loading name, enough depth loading name → scope name →
      Loads sources scope R loading name (Loader.resolve sources depth loading name)
        (rules.resolve sources depth loading name))
    {component : FieldType} {loading : List String} {name : String}
    (spelled : FieldType.ofDescriptor? name = some (.array component))
    (depthEnough : enough (depth + 1) loading name) (inScope : scope name) :
    Loads sources scope R loading name (array (Loader.resolve sources depth) loading component)
      (rules.array (rules.resolve sources depth) loading component) := by
  have finish := @Shadows.loads_arrayFrom sources _ _ _ _ _ closed descends shadows depth each
  induction component generalizing loading name with
  | object elementName =>
    have elementLoads := each (name :: loading) elementName (descends.element spelled depthEnough)
      (closed name _ inScope (.element spelled rfl))
    obtain ⟨-, rfl⟩ := FieldType.ofDescriptor?_eq_some_iff.mp spelled
    rw [array]
    exact finish spelled depthEnough inScope rfl fun _ _ joint => elementLoads.element rfl joint
  | array inner ih =>
    obtain ⟨wellSpelled, rfl⟩ := FieldType.ofDescriptor?_eq_some_iff.mp spelled
    have elementLoads := ih (FieldType.ofDescriptor?_eq_some_iff.mpr ⟨wellSpelled, rfl⟩)
      (descends.inner spelled depthEnough) (closed _ _ inScope (.element spelled rfl))
    rw [array]
    exact finish spelled depthEnough inScope rfl fun _ _ joint => elementLoads.element rfl joint
  | byte | char | double | float | int | long | short | boolean =>
    obtain ⟨-, rfl⟩ := FieldType.ofDescriptor?_eq_some_iff.mp spelled
    rw [array]
    exact finish spelled depthEnough inScope rfl fun _ _ joint => joint.noElement rfl

variable (scope) in
include closed descends shadows in
/-- **Loading in lockstep.** As long as there is enough depth, the loader and a way of loading whose
books match give the same class or the same error, and their books match afterwards. -/
theorem Shadows.loads {depth : Nat} {loading : List String} {name : String}
    (depthEnough : enough depth loading name) (inScope : scope name) :
    Loads sources scope R loading name (Loader.resolve sources depth loading name)
      (rules.resolve sources depth loading name) := by
  induction depth generalizing loading name with
  | zero =>
    intro loaded other joint
    rw [LoadRules.resolve, shadows.stop depthEnough joint]
    exact joint.fails
  | succ depth ih =>
    by_cases written : name.startsWith "[" = true
    · by_cases proper : Proper name
      · obtain ⟨component, spelled⟩ := proper written
        rw [LoadRules.resolve_of_spelled spelled, Loader.resolve.eq_def]
        dsimp only
        rw [if_pos written]
        simp only [spelled]
        exact shadows.loads_array closed descends (fun _ _ => ih) spelled depthEnough inScope
      · intro loaded other joint
        rw [resolve_of_improper proper, LoadRules.resolve_of_improper proper,
          shadows.refuse joint proper]
        exact joint.fails
    · have plain : name.startsWith "[" = false := Bool.eq_false_iff.mpr written
      have answers : ∀ loaded other c, Joint sources R loading loaded other →
          loaded.lookup name = some c → rules.resolve sources (depth + 1) loading name other =
            .ok c other :=
        fun loaded other c joint found => shadows.loaded depthEnough joint found
      rw [LoadRules.resolve.eq_def] at answers ⊢
      rw [Loader.resolve.eq_def]
      simp only [plain, Bool.false_eq_true, ↓reduceIte] at answers ⊢
      refine shadows.loads_cached inScope (fun starts => absurd starts written) answers ?_
      intro outside
      refine makes_define plain fun file pool described named needed needs => ?_
      exact ih (descends.file described named outside depthEnough)
        (closed name needed inScope needs)

end Shadows

end JavaMachine.Loader
