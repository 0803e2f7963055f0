import JavaMachine.Class.Link
import JavaMachine.ClassFile.Reader
import JavaMachine.Source.Basic

/-! # Loading classes

A class is found in the first source that has it, read, and linked to its superclass and its
interfaces, which are loaded before it. Array classes are made from the classes of their elements.
What is loaded stays loaded, also when a later class that needs it fails; a class that fails leaves
nothing behind. A class that comes to need itself is refused. -/

namespace JavaMachine

/-- The loaded classes by name. -/
abbrev LoadedClasses := List (String × LinkedClass)

/-- A step of loading that works on a state of some kind. What was done up to a failure stays. -/
abbrev LoadingOn (σ : Type) := EStateM Error σ

/-- A step of loading. The classes loaded up to a failure stay loaded. -/
abbrev Loading := LoadingOn LoadedClasses

namespace Loader

variable {σ : Type}

/-- A result that needs no loading. -/
def ofExcept {α : Type} : Except Error α → LoadingOn σ α
  | .ok value => pure value
  | .error error => throw error

/-- Keeps a class that is now loaded. -/
def publish (c : LinkedClass) : Loading LinkedClass := do
  modify fun loaded => (c.name, c) :: loaded
  return c

/-- Gives a missing dependency the fault of the class that needs it. -/
def orMissing {α : Type} (className dependency : String) (fault : LoadFault)
    (action : LoadingOn σ α) : LoadingOn σ α :=
  tryCatch action fun error =>
    if error = .classLoad dependency .notFound then throw (.classLoad className fault)
    else throw error

/-- A way of loading a class by its name. -/
abbrev LoadOn (σ : Type) := String → LoadingOn σ LinkedClass

/-- A way of loading a class by its name, among the loaded ones. -/
abbrev Load := LoadOn LoadedClasses

/-- The superclass at an index; only `java/lang/Object` has none. -/
def superclass (load : LoadOn σ) (className : String) (pool : Array Constant) (index : UInt16) :
    LoadingOn σ (Option LinkedClass) := do
  if index = 0 then
    if className == ClassName.object then return none
    else throw (.classLoad className (.incompatible .noSuperclass))
  else
    let name ← ofExcept (Link.classNameAt pool index)
    let loaded ← orMissing className name (.missingSuperclass name) (load name)
    if loaded.isInterface then
      throw (.classLoad className (.incompatible (.interfaceAsSuperclass loaded.name)))
    if loaded.flags.isFinal then
      throw (.classLoad className (.incompatible (.finalSuperclass loaded.name)))
    return some loaded

/-- The interface at an index. -/
def interface (load : LoadOn σ) (className : String) (pool : Array Constant) (index : UInt16) :
    LoadingOn σ LinkedClass := do
  let name ← ofExcept (Link.classNameAt pool index)
  let loaded ← orMissing className name (.missingInterface name) (load name)
  if !loaded.isInterface then
    throw (.classLoad className (.incompatible (.classAsInterface loaded.name)))
  return loaded

/-- Reads and links the class with a name. -/
def define (load : LoadOn σ) (sources : List ClassSource) (className : String) :
    LoadingOn σ LinkedClass := do
  let bytes ← ofExcept (findClass className sources)
  let file ← ofExcept ((ClassFile.read bytes).mapError .malformedClassFile)
  let pool ← ofExcept (Constant.resolvePool file.pool)
  let name ← ofExcept (Link.classNameAt pool file.thisClass)
  if name != className then
    throw (.classLoad className (.wrongName name))
  let superclass ← superclass load className pool file.superClass
  let interfaces ← file.interfaces.mapM (interface load className pool)
  if file.flags.isInterface && superclass.any (·.name != ClassName.object) then
    throw (.classLoad className (.incompatible .superclassOfInterface))
  ofExcept (Link.link file pool name superclass interfaces)

/-- A class that is loaded, or else is loaded now, unless it is being loaded already. -/
def cached (loading : List String) (name : String) (make : Loading LinkedClass) :
    Loading LinkedClass := do
  match (← get).lookup name with
  | some c => return c
  | none =>
    if loading.contains name then throw (.classLoad name .cyclicInheritance)
    else publish (← make)

/-- The class of arrays with elements of a type, given a way of loading classes that are no
arrays. -/
def array (load : List String → Load) (loading : List String) (component : FieldType) :
    Loading LinkedClass :=
  let name := (FieldType.array component).descriptor
  cached loading name do
    let loading := name :: loading
    let element ← match component with
      | .object elementName => some <$> load loading elementName
      | .array inner => some <$> array load loading inner
      | _ => pure none
    let object ← load loading ClassName.object
    return Link.arrayClass name component element object

/-- The class with a name. On the way `loading` are being loaded, and the number bounds how deep
classes can need each other. -/
def resolve (sources : List ClassSource) : Nat → List String → Load
  | 0, _, name => throw (.classLoad name .cyclicInheritance)
  | depth + 1, loading, name =>
    if name.startsWith "[" then
      match FieldType.ofDescriptor? name with
      | some (.array component) => array (resolve sources depth) loading component
      | _ => throw (.classLoad name .notFound)
    else
      cached loading name
        (define (resolve sources depth (name :: loading)) sources name)

/-- A bound on how deep classes can need each other: each class between two others is in a file of
its own, and may be reached through an array. -/
def depthBound (sources : List ClassSource) : Nat :=
  2 * (sources.foldr (fun source size => source.size + size) 0 + 2)

/-- The class with a name, loaded if need be. -/
def load (sources : List ClassSource) (name : String) : Loading LinkedClass :=
  resolve sources (depthBound sources) [] name

end Loader

end JavaMachine
