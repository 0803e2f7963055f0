import JavaMachine.Machine.Execution
import JavaMachine.Proofs.Class.Ancestry
import JavaMachine.Proofs.Instruction.Dispatch

/-! # Default methods

Where no class on the way to the root declares a method under a key, a class selects the first one
that its interfaces offer: those of its superclass come first, then its own in order, each before the
interfaces that it extends (`Loader.Defines.findMethod?_eq_offer`). What is met first wins, whether it
is abstract or not. So a default method of an interface that no other one overrides is selected
exactly if nothing is offered before it (`Loader.Reachable.selects_default_iff`); an abstract method that
it overrides may come first (`Loader.torch_stays_dark`). -/

namespace JavaMachine

open Relation (ReflTransGen)

/-- Whether a key is that of other methods than constructors and initializers of classes. -/
def PlainKey (key : String) : Prop :=
  ∀ method : Method, method.key = key →
    method.name ≠ MemberName.constructor ∧ method.name ≠ MemberName.staticInitializer

namespace LinkedClass

variable {c d j : LinkedClass} {key : String} {method : Method}

/-! ## What is met -/

/-- The classes that declare a method under a key, in the order in which they are met on the ways up
from a class. A way goes no further than to the first of them. -/
def met (key : String) : LinkedClass → List LinkedClass
  | mk info superclass interfaces element table =>
    match lastDeclared? info.methods key with
    | some _ => [mk info superclass interfaces element table]
    | none => ofSuperclass superclass ++ ofInterfaces interfaces
where
  ofSuperclass : Option LinkedClass → List LinkedClass
    | none => []
    | some above => met key above
  ofInterfaces : List LinkedClass → List LinkedClass
    | [] => []
    | first :: rest => met key first ++ ofInterfaces rest

theorem met_of_declares (declared : c.Declares key method) : c.met key = [c] := by
  obtain ⟨index, last, -⟩ := declared
  obtain ⟨info, superclass, interfaces, element, table⟩ := c
  have last : lastDeclared? info.methods key = some index := last
  rw [met, last]

theorem met_of_undeclared (undeclared : ∀ method, ¬ c.Declares key method) :
    c.met key = (c.superclass.map (met key)).getD [] ++ c.interfaces.flatMap (met key) := by
  have ofInterfaces (interfaces : List LinkedClass) :
      met.ofInterfaces key interfaces = interfaces.flatMap (met key) := by
    induction interfaces with
    | nil => rfl
    | cons first rest ih => rw [met.ofInterfaces, List.flatMap_cons, ih]
  have last := lastDeclared?_eq_none undeclared
  obtain ⟨info, superclass, interfaces, element, table⟩ := c
  have last : lastDeclared? info.methods key = none := last
  rw [met, last, ofInterfaces]
  cases superclass with
  | none => rfl
  | some above => rw [met.ofSuperclass]; rfl

/-- The method that an interface itself offers under a key. -/
def offer? (key : String) (c : LinkedClass) : Option (LinkedClass × Nat) :=
  ((lastDeclared? c.methods key).map fun index => (c, index)).filter (finds (decide ·.IsOffered))

theorem offer?_eq_some {owner : LinkedClass} {index : Nat} :
    c.offer? key = some (owner, index) ↔ owner = c ∧ lastDeclared? c.methods key = some index ∧
      ∃ method, c.method? index = some method ∧ method.IsOffered := by
  rw [offer?, Option.filter_eq_some_iff, Option.map_eq_some_iff, finds_iff]
  constructor
  · rintro ⟨⟨index, last, same⟩, offered⟩
    cases same
    exact ⟨rfl, last, offered⟩
  · rintro ⟨rfl, last, offered⟩
    exact ⟨⟨index, last, rfl⟩, offered⟩

theorem offer?_eq_none :
    c.offer? key = none ↔ ∀ method, c.Declares key method → ¬ method.IsOffered := by
  constructor
  · rintro none method ⟨index, last, present⟩ offered
    have some : c.offer? key = some (c, index) :=
      offer?_eq_some.mpr ⟨rfl, last, method, present, offered⟩
    rw [none] at some
    cases some
  · intro unoffered
    by_contra some
    obtain ⟨⟨owner, index⟩, found⟩ := Option.ne_none_iff_exists'.mp some
    obtain ⟨rfl, last, method, present, offered⟩ := offer?_eq_some.mp found
    exact unoffered method ⟨index, last, present⟩ offered

/-- What is offered passes a test that all methods pass that are offered under the key. -/
theorem filter_findSome?_offer? {passes : Method → Prop} [DecidablePred passes]
    (offered : ∀ method, method.key = key → method.IsOffered → passes method)
    (classes : List LinkedClass) :
    (classes.findSome? (offer? key)).filter (finds (decide <| passes ·)) =
      classes.findSome? (offer? key) := by
  cases found : classes.findSome? (offer? key) with
  | none => rfl
  | some first =>
    obtain ⟨owner, index⟩ := first
    obtain ⟨_, -, found⟩ := List.exists_of_findSome?_eq_some found
    obtain ⟨rfl, last, method, present, isOffered⟩ := offer?_eq_some.mp found
    have declared : owner.Declares key method := ⟨index, last, present⟩
    exact Option.filter_some_pos
      (finds_iff.mpr ⟨method, present, offered method declared.key_eq isOffered⟩)

/-- Interfaces that each select the first offer that is met select the first one that is met from any
of them. -/
theorem findSome?_interfaces {interfaces : List LinkedClass}
    (select : ∀ above ∈ interfaces, (above.findMethod? key).filter (finds (decide ·.IsOffered)) =
      (above.met key).findSome? (offer? key)) :
    (interfaces.findSome? fun above =>
        (above.findMethod? key).filter (finds (decide ·.IsOffered))) =
      (interfaces.flatMap (met key)).findSome? (offer? key) := by
  induction interfaces with
  | nil => rfl
  | cons first rest ih =>
    obtain ⟨selectFirst, selectRest⟩ := List.forall_mem_cons.mp select
    rw [List.findSome?_cons, List.flatMap_cons, List.findSome?_append, selectFirst, ih selectRest]
    cases (first.met key).findSome? (offer? key) <;> rfl

/-- No class from a class up to the root declares a method under a key. -/
def Undeclared (key : String) (c : LinkedClass) : Prop :=
  ∀ d, ReflTransGen (fun below above => below.superclass = some above) c d →
    ∀ method, ¬ d.Declares key method

theorem Undeclared.of_superclass (undeclared : c.Undeclared key) (extended : c.superclass = some d) :
    d.Undeclared key :=
  fun e path => undeclared e (path.head extended)

theorem Undeclared.self (undeclared : c.Undeclared key) (method : Method) :
    ¬ c.Declares key method :=
  undeclared c .refl method

end LinkedClass

namespace Loader.Defines

open LinkedClass

variable {sources : List ClassSource} {c : LinkedClass} {key : String}
  (rootExtensible : ∀ root, Defines sources root → root.name = ClassName.object →
    root.isInterface = false ∧ root.flags.isFinal = false)

include rootExtensible

/-- On the root nothing else is met. -/
theorem findMethod?_root (defined : Defines sources c) (root : c.name = ClassName.object)
    (undeclared : c.Undeclared key) : c.findMethod? key = none ∧ c.met key = [] := by
  have top := defined.superclass_eq_none_iff.mpr root
  have alone := defined.interfaces_root rootExtensible root
  constructor
  · rw [defined.tablesBuilt.findMethod?_eq_or, lastDeclared?_eq_none undeclared.self, top, alone]
    rfl
  · rw [met_of_undeclared undeclared.self, top, alone]
    rfl

/-- What an interface passes on is the first offer that is met from it. -/
theorem findMethod?_eq_offer_of_interface (defined : Defines sources c)
    (bare : ∀ root, Defines sources root → root.name = ClassName.object → root.Undeclared key)
    (kind : c.isInterface = true) :
    (c.findMethod? key).filter (finds (decide ·.IsOffered)) = (c.met key).findSome? (offer? key) := by
  induction c using LinksTo.wellFounded.induction with
  | _ c ih =>
    by_cases declared : ∃ method, c.Declares key method
    · obtain ⟨method, declared⟩ := declared
      obtain ⟨index, last, -⟩ := id declared
      rw [met_of_declares declared, List.findSome?_singleton, offer?, last,
        defined.tablesBuilt.findMethod?_of_declared last]
      rfl
    have undeclared := not_exists.mp declared
    obtain ⟨root, extended, named⟩ :=
      Option.map_eq_some_iff.mp ((defined.kinds rootExtensible).2.2 kind)
    have rootDefined := defined.linksTo_defined (.superclass extended)
    obtain ⟨selectsNone, meetsNone⟩ :=
      rootDefined.findMethod?_root rootExtensible named (bare root rootDefined named)
    have passed (above : LinkedClass) (member : above ∈ c.interfaces) :
        (above.findMethod? key).filter (finds (decide ·.IsOffered)) =
          (above.met key).findSome? (offer? key) :=
      have links : c.LinksTo above := .interface member
      ih above links (defined.linksTo_defined links)
        ((defined.kinds rootExtensible).2.1 above member)
    have implemented := findSome?_interfaces passed
    have selects : c.findMethod? key = (c.met key).findSome? (offer? key) := by
      rw [defined.tablesBuilt.findMethod?_eq_or, lastDeclared?_eq_none undeclared, extended,
        implemented, met_of_undeclared undeclared, extended, Option.bind_some, selectsNone,
        Option.map_some, Option.getD_some, meetsNone]
      rfl
    rw [selects, filter_findSome?_offer? fun _ _ offered => offered]

/-- **A class selects the first offer that is met from it** if no class up to the root declares a
method under the key. -/
theorem findMethod?_eq_offer (defined : Defines sources c) (plain : PlainKey key)
    (bare : ∀ root, Defines sources root → root.name = ClassName.object → root.Undeclared key)
    (kind : c.isInterface = false) (undeclared : c.Undeclared key) :
    c.findMethod? key = (c.met key).findSome? (offer? key) := by
  have inherited (method : Method) (keyed : method.key = key) (offered : method.IsOffered) :
      method.IsInherited := ⟨offered.2.1, plain method keyed⟩
  induction c using LinksTo.wellFounded.induction with
  | _ c ih =>
    have passed (above : LinkedClass) (member : above ∈ c.interfaces) :
        (above.findMethod? key).filter (finds (decide ·.IsOffered)) =
          (above.met key).findSome? (offer? key) :=
      have links : c.LinksTo above := .interface member
      (defined.linksTo_defined links).findMethod?_eq_offer_of_interface rootExtensible bare
        ((defined.kinds rootExtensible).2.1 above member)
    have implemented := findSome?_interfaces passed
    rw [defined.tablesBuilt.findMethod?_eq_or, lastDeclared?_eq_none undeclared.self, implemented,
      met_of_undeclared undeclared.self, List.findSome?_append]
    cases extended : c.superclass with
    | none => rfl
    | some above =>
      have links : c.LinksTo above := .superclass extended
      rw [Option.bind_some, ih above links (defined.linksTo_defined links)
        ((defined.kinds rootExtensible).1 above extended).1 (undeclared.of_superclass extended),
        filter_findSome?_offer? inherited]
      rfl

end Loader.Defines

/-! ## The most specific interface -/

namespace LinkedClass

variable {c d j : LinkedClass} {key : String} {method : Method}

/-- An interface of a class that declares a method under a key. -/
structure Competes (c : LinkedClass) (key : String) (d : LinkedClass) : Prop where
  kind : d.isInterface = true
  above : c.IsA d
  declares : ∃ method, d.Declares key method

/-- An interface of a class that declares a method under a key, while no other one below it does. -/
structure Specific (c : LinkedClass) (key : String) (j : LinkedClass) : Prop where
  competes : c.Competes key j
  lowest (other : LinkedClass) (competes : c.Competes key other)
    (below : ReflTransGen (fun below above => above ∈ below.interfaces) other j) : other = j

/-- Before an interface is met for the first time, nothing is offered under a key. -/
def Uncontested (c : LinkedClass) (key : String) (j : LinkedClass) : Prop :=
  ∀ before after, c.met key = before ++ j :: after → j ∉ before →
    ∀ d ∈ before, ∀ method, d.Declares key method → ¬ method.IsOffered

/-- An interface is met on a way of interfaces if no other one on the way declares a method. -/
theorem mem_met_of_path (declared : j.Declares key method)
    (path : ReflTransGen (fun below above => above ∈ below.interfaces) c j)
    (only : ∀ d, ReflTransGen (fun below above => above ∈ below.interfaces) c d →
      ReflTransGen (fun below above => above ∈ below.interfaces) d j →
      (∃ method, d.Declares key method) → d = j) : j ∈ c.met key := by
  induction path using ReflTransGen.head_induction_on with
  | refl => rw [met_of_declares declared]; exact List.mem_singleton_self j
  | @head c above link rest ih =>
    by_cases own : ∃ method, c.Declares key method
    · obtain rfl := only c .refl (rest.head link) own
      rw [met_of_declares declared]
      exact List.mem_singleton_self c
    · rw [met_of_undeclared (not_exists.mp own)]
      exact List.mem_append_right _ (List.mem_flatMap.mpr
        ⟨above, link, ih fun d path => only d (path.head link)⟩)

/-- What is met from a superclass is met. -/
theorem mem_met_of_superclasses (undeclared : c.Undeclared key)
    (chain : ReflTransGen (fun below above => below.superclass = some above) c d)
    (found : j ∈ d.met key) : j ∈ c.met key := by
  induction chain using ReflTransGen.head_induction_on with
  | refl => exact found
  | head extended _ ih =>
    rw [met_of_undeclared undeclared.self, extended]
    exact List.mem_append_left _ (ih (undeclared.of_superclass extended))

end LinkedClass

namespace Loader.Defines

open LinkedClass

variable {sources : List ClassSource} {c j : LinkedClass} {key : String} {method : Method}

/-- What no class up to the root declares is not declared by the root. -/
theorem undeclared_root (defined : Defines sources c) (undeclared : c.Undeclared key)
    {root : LinkedClass} (rootDefined : Defines sources root)
    (named : root.name = ClassName.object) : root.Undeclared key := by
  induction c using LinksTo.wellFounded.induction with
  | _ c ih =>
    cases extended : c.superclass with
    | none =>
      have same := (defined.superclass_eq_none_iff.mp extended).trans named.symm
      rwa [← defined.eq_of_name_eq rootDefined same]
    | some above =>
      have links : c.LinksTo above := .superclass extended
      exact ih above links (defined.linksTo_defined links) (undeclared.of_superclass extended)

variable (rootExtensible : ∀ root, Defines sources root → root.name = ClassName.object →
  root.isInterface = false ∧ root.flags.isFinal = false)

include rootExtensible

/-- The most specific interface is met. -/
theorem mem_met (defined : Defines sources c) (undeclared : c.Undeclared key)
    (specific : c.Specific key j) : j ∈ c.met key := by
  obtain ⟨-, ⟨ancestor, chain, path⟩, method, declared⟩ := specific.competes
  have ancestorDefined := defined.superclasses_defined chain
  refine mem_met_of_superclasses undeclared chain
    (mem_met_of_path declared path fun d passed rest declares => ?_)
  rcases ReflTransGen.cases_head passed with rfl | ⟨above, link, beyond⟩
  · obtain ⟨_, declares⟩ := declares
    exact absurd declares (undeclared ancestor chain _)
  · have kind := (ancestorDefined.linksTo_defined (.interface link)).isInterface_of_path
      rootExtensible ((ancestorDefined.kinds rootExtensible).2.1 above link) beyond
    exact specific.lowest d ⟨kind, ⟨ancestor, chain, passed⟩, declares⟩ rest

/-- The most specific interface has its method selected exactly if nothing is offered before. -/
theorem selects_iff_uncontested (defined : Defines sources c) (kind : c.isInterface = false)
    (plain : PlainKey key) (undeclared : c.Undeclared key) (specific : c.Specific key j)
    (declared : j.Declares key method) (offered : method.IsOffered) :
    c.Selects key j method ↔ c.Uncontested key j := by
  have first := defined.findMethod?_eq_offer rootExtensible plain
    (fun _ rootDefined named => defined.undeclared_root undeclared rootDefined named) kind undeclared
  obtain ⟨index, last, present⟩ := id declared
  have offers : j.offer? key = some (j, index) :=
    offer?_eq_some.mpr ⟨rfl, last, method, present, offered⟩
  constructor
  · rintro ⟨index', selected, -⟩ before after split fresh d member
    rw [first] at selected
    obtain ⟨before', other, after', split', found, unoffered⟩ :=
      List.findSome?_eq_some_iff.mp selected
    obtain ⟨rfl, -⟩ := offer?_eq_some.mp found
    rw [split, List.append_eq_append_iff] at split'
    rcases split' with ⟨between, rfl, -⟩ | ⟨between, rfl, tail⟩
    · exact offer?_eq_none.mp (unoffered d (List.mem_append_left _ member))
    · cases between with
      | nil => exact offer?_eq_none.mp (unoffered d (by rwa [List.append_nil] at member))
      | cons head rest =>
        obtain ⟨rfl, -⟩ := List.cons.inj tail
        exact absurd (List.mem_append_right _ List.mem_cons_self) fresh
  · intro uncontested
    obtain ⟨before, after, split, fresh⟩ :=
      List.eq_append_cons_of_mem (defined.mem_met rootExtensible undeclared specific)
    refine ⟨index, ?_, present⟩
    rw [first, List.findSome?_eq_some_iff]
    exact ⟨before, j, after, split, offers, fun d member =>
      offer?_eq_none.mpr (uncontested before after split fresh d member)⟩

end Loader.Defines

/-- A method that is not abstract is run when it is called, and an abstract one is not. -/
theorem Execution.invoke_eq {owner : LinkedClass} {index : Nat} {method : Method}
    (present : owner.method? index = some method) (natives : NativeTable)
    (run : Chain → Exec (Option Value)) (arguments : List Value) :
    invoke natives run owner index arguments =
      if method.isAbstract then Exec.fail (.abstractMethod owner.name method.key)
      else if method.isNative then runNative natives owner method arguments
      else runCode run owner index arguments := by
  rw [invoke, present]

/-- **The default method of the most specific interface is selected exactly if no other interface
offers a method before**, and then it is run when it is called. -/
theorem Loader.Reachable.selects_default_iff {builtin : ClassSource} {rest : List ClassSource}
    {loaded : LoadedClasses} {name key : String} {c j : LinkedClass} {method : Method}
    (built : Builtin.source = .ok builtin) (reachable : Loader.Reachable (builtin :: rest) loaded)
    (found : loaded.lookup name = some c) (kind : c.isInterface = false) (plain : PlainKey key)
    (undeclared : c.Undeclared key) (specific : c.Specific key j) (declared : j.Declares key method)
    (concrete : method.isAbstract = false) (onObjects : method.isStatic = false)
    (shared : method.isPrivate = false) :
    (c.Selects key j method ↔ c.Uncontested key j) ∧
      ∀ index, j.method? index = some method → ∀ natives run arguments,
        Execution.invoke natives run j index arguments =
          if method.isNative then Execution.runNative natives j method arguments
          else Execution.runCode run j index arguments := by
  have defined := (reachable.sound name c found).2.1
  constructor
  · exact defined.selects_iff_uncontested
      (fun _ rootDefined named => rootDefined.extensible_root built named) kind plain undeclared
      specific declared ⟨onObjects, shared, (plain method declared.key_eq).2⟩
  · intro index present natives run arguments
    rw [Execution.invoke_eq present, if_neg (by rw [concrete]; decide)]

/-! ## Lamps and torches -/

namespace Loader

/-- What has a switch is to shine, and what glows does. Lamps and torches are both, but name the two
interfaces in different orders. -/
def lampScripts : List ClassScript := [
  ⟨"Switch", some ClassName.object, [
    .flags ⟨0x0601⟩, .abstractMethod ⟨0x0401⟩ "shine" "()I"]⟩,
  ⟨"Glow", some ClassName.object, [
    .flags ⟨0x0601⟩, .interface "Switch",
    .method Builtin.isPublic "shine" "()I" 0 [.iconst 1, .plain (Opcode.returnValue .int).byte]]⟩,
  ⟨"Lamp", some ClassName.object, [.interface "Glow", .interface "Switch"]⟩,
  ⟨"Torch", some ClassName.object, [.interface "Switch", .interface "Glow"]⟩]

/-- The classes of the lamps, as a source. -/
def lampSource : ClassSource :=
  match lampScripts.mapM Builtin.fileOf with
  | .ok files => .ofClasses files
  | .error _ => .memory []

@[irreducible] def lamps : LoadedClasses :=
  Step.askedFor [builtinClasses, lampSource] ["Lamp", "Torch"]

/-- A class that is loaded with the lamps. -/
def lamp (name : String) : LinkedClass :=
  (lamps.lookup name).getD default

/-- The method of what glows. -/
def shining : Method :=
  ⟨⟨0x0001⟩, "shine", "()I", ⟨[], some .int⟩, some ⟨1, 1, #[0x04, 0xac], []⟩⟩

/-- The method of what has a switch. -/
def toShine : Method :=
  ⟨⟨0x0401⟩, "shine", "()I", ⟨[], some .int⟩, none⟩

/-- The names of what a class is linked to, and what it declares. -/
def lampShape (name : String) : Option String × List String × Bool × Array Method :=
  ((lamp name).superclass.map LinkedClass.name, (lamp name).interfaces.map LinkedClass.name,
    (lamp name).isInterface, (lamp name).methods)

theorem lamps_facts :
    (∀ name ∈ [ClassName.object, "Switch", "Glow", "Lamp", "Torch"],
        (lamps.lookup name).isSome = true) ∧
      lampShape "Switch" = (some ClassName.object, [], true, #[toShine]) ∧
      lampShape "Glow" = (some ClassName.object, ["Switch"], true, #[shining]) ∧
      lampShape "Lamp" = (some ClassName.object, ["Glow", "Switch"], false, #[]) ∧
      lampShape "Torch" = (some ClassName.object, ["Switch", "Glow"], false, #[]) ∧
      (lamp ClassName.object).isInterface = false ∧
      LinkedClass.lastDeclared? (lamp ClassName.object).methods "shine()I" = none := by
  decide +kernel

theorem reachable_lamps : Reachable [builtinClasses, lampSource] lamps := by
  unfold lamps
  exact Step.reachable_askedFor _ _

theorem lookup_lamp {name : String}
    (listed : name ∈ [ClassName.object, "Switch", "Glow", "Lamp", "Torch"]) :
    lamps.lookup name = some (lamp name) := by
  obtain ⟨c, found⟩ := Option.isSome_iff_exists.mp (lamps_facts.1 name listed)
  rw [lamp, found, Option.getD_some]

theorem defines_lamp {name : String}
    (listed : name ∈ [ClassName.object, "Switch", "Glow", "Lamp", "Torch"]) :
    Defines [builtinClasses, lampSource] (lamp name) :=
  (reachable_lamps.sound name _ (lookup_lamp listed)).2.1

/-- What a lamp is linked to is known by its name. -/
theorem linked_lamp {name : String} {above : LinkedClass}
    (listed : name ∈ [ClassName.object, "Switch", "Glow", "Lamp", "Torch"])
    (links : (lamp name).LinksTo above) : lamp above.name = above := by
  have found := (reachable_lamps.sound name _ (lookup_lamp listed)).2.2 above links
  rw [lamp, found, Option.getD_some]

/-- The shape of a lamp tells what it is linked to. -/
theorem parts_lamp {name : String} {superclass : Option String} {interfaces : List String}
    {kind : Bool} {methods : Array Method}
    (listed : name ∈ [ClassName.object, "Switch", "Glow", "Lamp", "Torch"])
    (shape : lampShape name = (superclass, interfaces, kind, methods)) :
    (lamp name).superclass = superclass.map lamp ∧ (lamp name).interfaces = interfaces.map lamp ∧
      (lamp name).isInterface = kind ∧ (lamp name).methods = methods := by
  obtain ⟨superclassNamed, rest⟩ := Prod.mk.inj shape
  obtain ⟨interfacesNamed, rest⟩ := Prod.mk.inj rest
  obtain ⟨isKind, declared⟩ := Prod.mk.inj rest
  refine ⟨?_, ?_, isKind, declared⟩
  · rw [← superclassNamed, Option.map_map]
    cases extended : (lamp name).superclass with
    | none => rfl
    | some above => exact congrArg some (linked_lamp listed (.superclass extended)).symm
  · rw [← interfacesNamed, List.map_map]
    refine (List.map_id _).symm.trans (List.map_congr_left fun above member => ?_)
    exact (linked_lamp listed (.interface member)).symm

theorem root_lamp : (lamp ClassName.object).superclass = none ∧
    (lamp ClassName.object).interfaces = [] := by
  have listed : ClassName.object ∈ [ClassName.object, "Switch", "Glow", "Lamp", "Torch"] :=
    List.mem_cons_self
  have named : (lamp ClassName.object).name = ClassName.object :=
    (reachable_lamps.sound _ _ (lookup_lamp listed)).1
  have defined := defines_lamp listed
  exact ⟨defined.superclass_eq_none_iff.mpr named, defined.interfaces_root
    (fun _ rootDefined rootNamed => rootDefined.extensible_root source_eq_builtinClasses rootNamed)
    named⟩

theorem plain_shine : PlainKey "shine()I" := by
  intro method keyed
  constructor <;>
  · intro named
    rw [Method.key, named] at keyed
    have first := congrArg (·.toList.head?) keyed
    simp [methodKey, MemberName.constructor, MemberName.staticInitializer] at first

/-- A class with the interfaces of lamps, in some order. -/
structure IsLamp (c : LinkedClass) : Prop where
  superclass : c.superclass = some (lamp ClassName.object)
  interfaces (above : LinkedClass) : above ∈ c.interfaces ↔ above = lamp "Switch" ∨ above = lamp "Glow"
  kind : c.isInterface = false
  methods : c.methods = #[]

section Shapes

open LinkedClass

theorem parts_switch : (lamp "Switch").interfaces = [] ∧ (lamp "Switch").isInterface = true ∧
    (lamp "Switch").methods = #[toShine] := by
  have parts := parts_lamp (by decide) lamps_facts.2.1
  exact ⟨parts.2.1, parts.2.2⟩

theorem parts_glow : (lamp "Glow").interfaces = [lamp "Switch"] ∧
    (lamp "Glow").isInterface = true ∧ (lamp "Glow").methods = #[shining] := by
  have parts := parts_lamp (by decide) lamps_facts.2.2.1
  exact ⟨parts.2.1, parts.2.2⟩

theorem isLamp_lamp : IsLamp (lamp "Lamp") := by
  obtain ⟨superclass, interfaces, kind, methods⟩ := parts_lamp (by decide) lamps_facts.2.2.2.1
  refine ⟨superclass, fun above => ?_, kind, methods⟩
  rw [interfaces]
  simp only [List.map_cons, List.map_nil, List.mem_cons, List.not_mem_nil, or_false]
  exact or_comm

theorem isLamp_torch : IsLamp (lamp "Torch") := by
  obtain ⟨superclass, interfaces, kind, methods⟩ := parts_lamp (by decide) lamps_facts.2.2.2.2.1
  refine ⟨superclass, fun above => ?_, kind, methods⟩
  rw [interfaces]
  simp only [List.map_cons, List.map_nil, List.mem_cons, List.not_mem_nil, or_false]

theorem above_switch {d : LinkedClass}
    (path : ReflTransGen (fun below above => above ∈ below.interfaces) (lamp "Switch") d) :
    d = lamp "Switch" := by
  rcases ReflTransGen.cases_head path with same | ⟨above, implemented, -⟩
  · exact same.symm
  · rw [parts_switch.1] at implemented
    cases implemented

theorem above_glow {d : LinkedClass}
    (path : ReflTransGen (fun below above => above ∈ below.interfaces) (lamp "Glow") d) :
    d = lamp "Switch" ∨ d = lamp "Glow" := by
  rcases ReflTransGen.cases_head path with same | ⟨above, implemented, path⟩
  · exact .inr same.symm
  · rw [parts_glow.1, List.mem_singleton] at implemented
    subst implemented
    exact .inl (above_switch path)

theorem switch_ne_glow : lamp "Switch" ≠ lamp "Glow" := by
  intro same
  have methods := parts_switch.2.2
  rw [same, parts_glow.2.2] at methods
  exact absurd methods (by decide)

theorem last_of_single {c : LinkedClass} {method : Method} {key : String}
    (methods : c.methods = #[method]) (keyed : method.key = key) :
    lastDeclared? c.methods key = some 0 := by
  rw [methods, lastDeclared?]
  simp [keyed]

theorem declares_of_single {c : LinkedClass} {method : Method} {key : String}
    (methods : c.methods = #[method]) (keyed : method.key = key) : c.Declares key method :=
  ⟨0, last_of_single methods keyed, by rw [method?, methods]; rfl⟩

theorem declares_switch : (lamp "Switch").Declares "shine()I" toShine :=
  declares_of_single parts_switch.2.2 rfl

theorem declares_glow : (lamp "Glow").Declares "shine()I" shining :=
  declares_of_single parts_glow.2.2 rfl

end Shapes

namespace IsLamp

open LinkedClass

variable {c d : LinkedClass} (isLamp : IsLamp c)

include isLamp

theorem undeclared : c.Undeclared "shine()I" := by
  rintro passed chain method ⟨index, last, -⟩
  rcases ReflTransGen.cases_head chain with rfl | ⟨root, extended, rest⟩
  · rw [isLamp.methods] at last
    cases last
  · obtain rfl := Option.some.inj (isLamp.superclass.symm.trans extended)
    rcases ReflTransGen.cases_head rest with rfl | ⟨above, extended, -⟩
    · rw [lamps_facts.2.2.2.2.2.2] at last
      cases last
    · rw [root_lamp.1] at extended
      cases extended

/-- A lamp has two interfaces. -/
theorem competes_iff : c.Competes "shine()I" d ↔ d = lamp "Switch" ∨ d = lamp "Glow" := by
  constructor
  · rintro ⟨kind, ⟨ancestor, chain, path⟩, -⟩
    rcases ReflTransGen.cases_head chain with rfl | ⟨root, extended, chain⟩
    · rcases ReflTransGen.cases_head path with rfl | ⟨above, implemented, path⟩
      · cases isLamp.kind.symm.trans kind
      · rcases (isLamp.interfaces above).mp implemented with rfl | rfl
        · exact .inl (above_switch path)
        · exact above_glow path
    · obtain rfl := Option.some.inj (isLamp.superclass.symm.trans extended)
      rcases ReflTransGen.cases_head chain with rfl | ⟨above, extended, -⟩
      · rcases ReflTransGen.cases_head path with rfl | ⟨above, implemented, -⟩
        · cases lamps_facts.2.2.2.2.2.1.symm.trans kind
        · rw [root_lamp.2] at implemented
          cases implemented
      · rw [root_lamp.1] at extended
        cases extended
  · rintro (rfl | rfl)
    · exact ⟨parts_switch.2.1, ⟨c, .refl, .single ((isLamp.interfaces _).mpr (.inl rfl))⟩,
        _, declares_switch⟩
    · exact ⟨parts_glow.2.1, ⟨c, .refl, .single ((isLamp.interfaces _).mpr (.inr rfl))⟩,
        _, declares_glow⟩

/-- What glows is the most specific. -/
theorem specific_iff : c.Specific "shine()I" d ↔ d = lamp "Glow" := by
  constructor
  · rintro ⟨competes, lowest⟩
    rcases isLamp.competes_iff.mp competes with rfl | same
    · refine (lowest _ (isLamp.competes_iff.mpr (.inr rfl)) (.single ?_)).symm
      rw [parts_glow.1]
      exact List.mem_cons_self
    · exact same
  · rintro rfl
    refine ⟨isLamp.competes_iff.mpr (.inr rfl), fun other competes below => ?_⟩
    rcases isLamp.competes_iff.mp competes with rfl | same
    · exact (above_switch below).symm
    · exact same

/-- Both interfaces are met in the order in which they are listed. -/
theorem met_eq : c.met "shine()I" = c.interfaces := by
  have root : (lamp ClassName.object).met "shine()I" = [] := by
    rw [met_of_undeclared fun method =>
      (isLamp.undeclared.of_superclass isLamp.superclass).self method, root_lamp.1, root_lamp.2]
    rfl
  have each : ∀ above ∈ c.interfaces, above.met "shine()I" = [above] := by
    intro above member
    rcases (isLamp.interfaces above).mp member with rfl | rfl
    · exact met_of_declares declares_switch
    · exact met_of_declares declares_glow
  rw [met_of_undeclared isLamp.undeclared.self, isLamp.superclass, Option.map_some,
    Option.getD_some, root, List.nil_append, List.flatMap_congr each, List.flatMap_singleton']

end IsLamp

/-- A lamp shines: what glows comes first. -/
theorem selects_default_iff_lamp :
    Builtin.source = .ok builtinClasses ∧ Reachable [builtinClasses, lampSource] lamps ∧
      lamps.lookup "Lamp" = some (lamp "Lamp") ∧ (lamp "Lamp").isInterface = false ∧
      PlainKey "shine()I" ∧ (lamp "Lamp").Undeclared "shine()I" ∧
      (lamp "Lamp").Specific "shine()I" (lamp "Glow") ∧
      (lamp "Glow").Declares "shine()I" shining ∧ shining.isAbstract = false ∧
      shining.isStatic = false ∧ shining.isPrivate = false ∧
      (lamp "Lamp").Uncontested "shine()I" (lamp "Glow") ∧
      (lamp "Lamp").Selects "shine()I" (lamp "Glow") shining := by
  have interfaces := (parts_lamp (by decide) lamps_facts.2.2.2.1).2.1
  have uncontested : (lamp "Lamp").Uncontested "shine()I" (lamp "Glow") := by
    intro before after split fresh d member
    rw [isLamp_lamp.met_eq, interfaces] at split
    cases before with
    | nil => cases member
    | cons head rest =>
      obtain ⟨rfl, -⟩ := List.cons.inj split
      exact absurd List.mem_cons_self fresh
  have found : lamps.lookup "Lamp" = some (lamp "Lamp") := lookup_lamp (by decide)
  have specific := isLamp_lamp.specific_iff.mpr rfl
  exact ⟨source_eq_builtinClasses, reachable_lamps, found, isLamp_lamp.kind, plain_shine,
    isLamp_lamp.undeclared, specific, declares_glow, by decide, by decide, by decide, uncontested,
    (Reachable.selects_default_iff source_eq_builtinClasses reachable_lamps found isLamp_lamp.kind
      plain_shine isLamp_lamp.undeclared specific declares_glow (by decide) (by decide)
      (by decide)).1.mpr uncontested⟩

/-- **An abstract method that is overridden may come first**: a torch has only one most specific
interface for shining, and that has a default method, but a torch cannot shine. -/
theorem torch_stays_dark :
    Reachable [builtinClasses, lampSource] lamps ∧
      lamps.lookup "Torch" = some (lamp "Torch") ∧ (lamp "Torch").isInterface = false ∧
      PlainKey "shine()I" ∧ (lamp "Torch").Undeclared "shine()I" ∧
      (∀ d, (lamp "Torch").Specific "shine()I" d ↔ d = lamp "Glow") ∧
      (lamp "Glow").Declares "shine()I" shining ∧ shining.isAbstract = false ∧
      shining.isStatic = false ∧ shining.isPrivate = false ∧
      ¬ (lamp "Torch").Selects "shine()I" (lamp "Glow") shining ∧
      (lamp "Torch").findMethod? "shine()I" = some (lamp "Switch", 0) ∧
      ∀ natives run arguments, Execution.invoke natives run (lamp "Switch") 0 arguments =
        Exec.fail (.abstractMethod (lamp "Switch").name "shine()I") := by
  have interfaces := (parts_lamp (by decide) lamps_facts.2.2.2.2.1).2.1
  have selected : (lamp "Torch").findMethod? "shine()I" = some (lamp "Switch", 0) := by
    have defined : Defines [builtinClasses, lampSource] (lamp "Torch") := defines_lamp (by decide)
    have offers : (lamp "Switch").offer? "shine()I" = some (lamp "Switch", 0) :=
      LinkedClass.offer?_eq_some.mpr ⟨rfl, last_of_single parts_switch.2.2 rfl, toShine,
        by rw [LinkedClass.method?, parts_switch.2.2]; rfl, by decide⟩
    rw [defined.findMethod?_eq_offer
      (fun _ rootDefined named => rootDefined.extensible_root source_eq_builtinClasses named)
      plain_shine (fun _ rootDefined named => defined.undeclared_root isLamp_torch.undeclared
        rootDefined named) isLamp_torch.kind isLamp_torch.undeclared, isLamp_torch.met_eq,
      interfaces, List.map_cons, List.findSome?_cons, offers]
  refine ⟨reachable_lamps, lookup_lamp (by decide), isLamp_torch.kind, plain_shine,
    isLamp_torch.undeclared, fun _ => isLamp_torch.specific_iff, declares_glow, by decide,
    by decide, by decide, ?_, selected, fun natives run arguments => ?_⟩
  · rintro ⟨index, found, -⟩
    rw [selected] at found
    exact switch_ne_glow (Prod.mk.inj (Option.some.inj found)).1
  · have present : (lamp "Switch").method? 0 = some toShine := by
      rw [LinkedClass.method?, parts_switch.2.2]
      rfl
    rw [Execution.invoke_eq present, if_pos (by decide)]
    rfl

end Loader

end JavaMachine
