import JavaMachine.Class.Subtype
import JavaMachine.Proofs.Class.Selection

/-! # Assignability and ancestors

A value can be stored where a class is expected exactly if that class is an ancestor of the class
of the value (`Loader.Defines.isAssignableTo_iff`). The check walks up superclasses for a class and
everything for an interface, compares names, and treats arrays apart; ancestors are what the links
of a class lead to, and for arrays also the arrays of ancestors. -/

namespace JavaMachine

open Relation (ReflTransGen TransGen)

namespace LinkedClass

/-- The ancestors of a class: the class itself, the ancestors of its superclass and of its
interfaces, and for an array the arrays of ancestors of the class of its elements. -/
inductive Descends : LinkedClass → LinkedClass → Prop where
  | refl (c : LinkedClass) : Descends c c
  | superclass {c above ancestor : LinkedClass} (extended : c.superclass = some above)
      (descends : Descends above ancestor) : Descends c ancestor
  | interface {c above ancestor : LinkedClass} (implemented : above ∈ c.interfaces)
      (descends : Descends above ancestor) : Descends c ancestor
  | array {c ancestor inner innerAncestor : LinkedClass} (contained : c.element = some inner)
      (ancestorContained : ancestor.element = some innerAncestor)
      (descends : Descends inner innerAncestor) : Descends c ancestor

variable {c d above : LinkedClass} {target : String}

/-! ## The walks up -/

theorem extends?_eq (c : LinkedClass) (target : String) :
    c.extends? target = (c.name == target || c.superclass.any (extends? target)) := by
  obtain ⟨info, superclass, interfaces, element, table⟩ := c
  cases superclass with
  | none => exact (Bool.or_false _).symm
  | some above => rfl

theorem inInterfaces_eq_any (target : String) (interfaces : List LinkedClass) :
    implements?.inInterfaces target interfaces =
      interfaces.any fun above => above.name == target || above.implements? target := by
  induction interfaces with
  | nil => rfl
  | cons first rest ih => rw [implements?.inInterfaces, ih, List.any_cons]

theorem implements?_eq (c : LinkedClass) (target : String) :
    c.implements? target =
      (c.interfaces.any (fun above => above.name == target || above.implements? target) ||
        c.superclass.any (implements? target)) := by
  obtain ⟨info, superclass, interfaces, element, table⟩ := c
  rw [implements?, inInterfaces_eq_any]
  cases superclass <;> rfl

/-- What is extended is reached along superclasses. -/
theorem extends?_iff : c.extends? target = true ↔
    ∃ ancestor, ReflTransGen (fun below above => below.superclass = some above) c ancestor ∧
      ancestor.name = target := by
  constructor
  · intro extended
    induction c using LinksTo.wellFounded.induction with
    | _ c ih =>
      rw [extends?_eq, Bool.or_eq_true] at extended
      rcases extended with named | extended
      · exact ⟨c, .refl, beq_iff_eq.mp named⟩
      · obtain ⟨above, link, extended⟩ := (Option.any_eq_true _ _).mp extended
        obtain ⟨ancestor, path, named⟩ := ih above (.superclass link) extended
        exact ⟨ancestor, path.head link, named⟩
  · rintro ⟨ancestor, path, rfl⟩
    induction path using ReflTransGen.head_induction_on with
    | refl => rw [extends?_eq, beq_self_eq_true, Bool.true_or]
    | head link _ ih => rw [extends?_eq, link, Option.any_some, ih, Bool.or_true]

/-- What is implemented is an ancestor. -/
theorem exists_of_implements? (implemented : c.implements? target = true) :
    ∃ ancestor, TransGen LinksTo c ancestor ∧ c.Descends ancestor ∧ ancestor.name = target := by
  induction c using LinksTo.wellFounded.induction with
  | _ c ih =>
    rw [implements?_eq, Bool.or_eq_true] at implemented
    rcases implemented with implemented | implemented
    · obtain ⟨above, link, found⟩ := List.any_eq_true.mp implemented
      rcases Bool.or_eq_true _ _ ▸ found with named | implemented
      · exact ⟨above, .single (.interface link), .interface link (.refl above),
          beq_iff_eq.mp named⟩
      · obtain ⟨ancestor, path, descends, named⟩ := ih above (.interface link) implemented
        exact ⟨ancestor, .head (.interface link) path, .interface link descends, named⟩
    · obtain ⟨above, link, implemented⟩ := (Option.any_eq_true _ _).mp implemented
      obtain ⟨ancestor, path, descends, named⟩ := ih above (.superclass link) implemented
      exact ⟨ancestor, .head (.superclass link) path, .superclass link descends, named⟩

theorem Descends.of_superclasses {ancestor : LinkedClass}
    (path : ReflTransGen (fun below above => below.superclass = some above) c ancestor) :
    c.Descends ancestor := by
  induction path using ReflTransGen.head_induction_on with
  | refl => exact .refl _
  | head link _ ih => exact .superclass link ih

/-! ## The check for classes and for arrays -/

theorem isAssignableTo_of_plain (plain : c.component = none) :
    c.isAssignableTo d =
      if d.isInterface then c.name == d.name || c.implements? d.name else c.extends? d.name := by
  obtain ⟨info, superclass, interfaces, element, table⟩ := c
  change info.component = none at plain
  unfold isAssignableTo
  simp only [plain]

theorem isAssignableTo_of_array {type : FieldType} (array : c.component = some type)
    (plain : d.component = none) : c.isAssignableTo d = (d.name == ClassName.object) := by
  obtain ⟨info, superclass, interfaces, element, table⟩ := c
  change info.component = some type at array
  unfold isAssignableTo
  simp only [array, plain]

theorem isAssignableTo_of_arrays {type expected : FieldType} (array : c.component = some type)
    (arrays : d.component = some expected) : c.isAssignableTo d =
      if type.isReference && expected.isReference then
        c.element.any fun inner => d.element.any inner.isAssignableTo
      else type == expected := by
  obtain ⟨info, superclass, interfaces, element, table⟩ := c
  change info.component = some type at array
  unfold isAssignableTo
  simp only [array, arrays]
  cases element with
  | none => rfl
  | some inner => cases contained : d.element <;> rfl

end LinkedClass

namespace Loader

open LinkedClass

variable {sources : List ClassSource} {c d above ancestor inner : LinkedClass}

/-! ## Kinds of classes -/

/-- Array classes are final, and no interfaces. -/
theorem kind_arrayClass (name : String) (component : FieldType) (element : Option LinkedClass)
    (object : LinkedClass) :
    (Link.arrayClass name component element object).flags.isFinal = true ∧
      (Link.arrayClass name component element object).isInterface = false := by
  have flags : (Link.arrayClass name component element object).flags = ⟨0x0411⟩ := rfl
  rw [LinkedClass.isInterface, flags]
  decide

namespace Defines

/-- What can be extended or implemented is no array. -/
theorem component_eq_none (defined : Defines sources c)
    (open' : c.flags.isFinal = false ∨ c.isInterface = true) : c.component = none := by
  cases defined with
  | file _ _ _ _ _ _ _ linked => exact (Link.parts_of_link linked).2.2.2.2.2
  | @array name component element object =>
    obtain ⟨final, notInterface⟩ := kind_arrayClass name component element object
    rcases open' with notFinal | kind
    · cases final.symm.trans notFinal
    · cases notInterface.symm.trans kind

theorem superclasses_defined (defined : Defines sources c)
    (path : ReflTransGen (fun below above => below.superclass = some above) c ancestor) :
    Defines sources ancestor := by
  induction path with
  | refl => exact defined
  | tail _ extended ih => exact ih.linksTo_defined (.superclass extended)

theorem isSome_component (defined : Defines sources c) (contained : c.element = some inner) :
    ∃ type, c.component = some type ∧ type.isReference = true ∧ inner.name = type.className := by
  cases defined with
  | file _ _ _ _ _ _ _ linked => cases (Link.parts_of_link linked).2.2.2.2.1.symm.trans contained
  | array _ elementFits =>
    obtain rfl := contained
    exact ⟨_, rfl, elementFits.name_eq⟩

theorem exists_element (defined : Defines sources c) {type : FieldType}
    (array : c.component = some type) (reference : type.isReference = true) :
    ∃ inner, c.element = some inner := by
  cases defined with
  | file _ _ _ _ _ _ _ linked => cases (Link.parts_of_link linked).2.2.2.2.2.symm.trans array
  | array _ elementFits =>
    cases array
    unfold ElementFits at elementFits
    rw [if_pos reference] at elementFits
    obtain ⟨inner, found, -⟩ := Option.map_eq_some_iff.mp elementFits
    exact ⟨inner, found⟩

/-- An array class is below the root only, and has the name that its type spells. -/
theorem of_component (defined : Defines sources c) {type : FieldType}
    (array : c.component = some type) :
    c.name = (FieldType.array type).descriptor ∧ c.interfaces = [] ∧ c.isInterface = false ∧
      ∃ root, c.superclass = some root ∧ root.name = ClassName.object := by
  cases defined with
  | file _ _ _ _ _ _ _ linked => cases (Link.parts_of_link linked).2.2.2.2.2.symm.trans array
  | array spelled _ root =>
    cases array
    exact ⟨(FieldType.ofDescriptor?_eq_some_iff.mp spelled).2.symm, rfl, (kind_arrayClass _ _ _ _).2, _, rfl, root⟩

end Defines

section Ancestors

variable (rootExtensible : ∀ root, Defines sources root → root.name = ClassName.object →
  root.isInterface = false ∧ root.flags.isFinal = false)

include rootExtensible

namespace Defines

theorem plain_of_superclass (defined : Defines sources c) (extended : c.superclass = some above) :
    Defines sources above ∧ above.isInterface = false ∧ above.component = none := by
  have aboveDefined := defined.linksTo_defined (.superclass extended)
  obtain ⟨kind, extensible⟩ := (defined.kinds rootExtensible).1 above extended
  exact ⟨aboveDefined, kind, aboveDefined.component_eq_none (.inl extensible)⟩

theorem plain_of_interface (defined : Defines sources c) (implemented : above ∈ c.interfaces) :
    Defines sources above ∧ above.isInterface = true ∧ above.component = none := by
  have aboveDefined := defined.linksTo_defined (.interface implemented)
  have kind := (defined.kinds rootExtensible).2.1 above implemented
  exact ⟨aboveDefined, kind, aboveDefined.component_eq_none (.inr kind)⟩

/-- The root has no interfaces, as all interfaces are below it. -/
theorem interfaces_root (defined : Defines sources c) (root : c.name = ClassName.object) :
    c.interfaces = [] := by
  refine List.eq_nil_iff_forall_not_mem.mpr fun above implemented => ?_
  obtain ⟨aboveDefined, kind, -⟩ := defined.plain_of_interface rootExtensible implemented
  obtain ⟨top, extended, named⟩ :=
    Option.map_eq_some_iff.mp ((aboveDefined.kinds rootExtensible).2.2 kind)
  have back := aboveDefined.needs_of_linksTo (.superclass extended)
  rw [named, ← root] at back
  exact defined.not_needs_itself (.head (defined.needs_of_linksTo (.interface implemented))
    (.single back))

/-- The root is its only ancestor. -/
theorem eq_of_descends_root (defined : Defines sources c) (root : c.name = ClassName.object)
    (descends : c.Descends ancestor) : ancestor = c := by
  have plain := defined.component_eq_none (.inl (rootExtensible c defined root).2)
  cases descends with
  | refl => rfl
  | superclass extended =>
    rw [defined.superclass_eq_none_iff.mpr root] at extended
    cases extended
  | interface implemented =>
    rw [defined.interfaces_root rootExtensible root] at implemented
    cases implemented
  | array contained =>
    obtain ⟨type, array, -⟩ := defined.isSome_component contained
    cases plain.symm.trans array

/-- The ancestors of an interface are interfaces and the root. -/
theorem kind_of_descends (defined : Defines sources c) (kind : c.isInterface = true)
    (descends : c.Descends ancestor) :
    ancestor.isInterface = true ∨ ancestor.name = ClassName.object := by
  induction descends with
  | refl => exact .inl kind
  | superclass extended descends _ =>
    have aboveDefined := defined.linksTo_defined (.superclass extended)
    have named := (defined.kinds rootExtensible).2.2 kind
    rw [extended, Option.map_some] at named
    have root := Option.some.inj named
    rw [aboveDefined.eq_of_descends_root rootExtensible root descends]
    exact .inr root
  | interface implemented _ ih =>
    obtain ⟨aboveDefined, aboveKind, -⟩ := defined.plain_of_interface rootExtensible implemented
    exact ih aboveDefined aboveKind
  | array contained =>
    obtain ⟨type, array, -⟩ := defined.isSome_component contained
    cases (defined.of_component array).2.2.1.symm.trans kind

/-! ## Assignability -/

/-- An interface that is an ancestor is implemented. -/
theorem implements?_of_descends (defined : Defines sources c) (ancestorDefined : Defines sources d)
    (kind : d.isInterface = true) (descends : c.Descends d) :
    c = d ∨ c.implements? d.name = true := by
  induction descends with
  | refl => exact .inl rfl
  | superclass extended _ ih =>
    obtain ⟨aboveDefined, aboveKind, -⟩ := defined.plain_of_superclass rootExtensible extended
    rcases ih aboveDefined ancestorDefined kind with rfl | implemented
    · cases aboveKind.symm.trans kind
    · rw [implements?_eq, extended, Option.any_some, implemented, Bool.or_true]
      exact .inr rfl
  | @interface c above d implemented _ ih =>
    have aboveDefined := defined.linksTo_defined (.interface implemented)
    have found : (above.name == d.name || above.implements? d.name) = true := by
      rcases ih aboveDefined ancestorDefined kind with rfl | implemented
      · rw [beq_self_eq_true, Bool.true_or]
      · rw [implemented, Bool.or_true]
    rw [implements?_eq, List.any_eq_true.mpr ⟨above, implemented, found⟩, Bool.true_or]
    exact .inr rfl
  | array _ contained =>
    obtain ⟨type, array, -⟩ := ancestorDefined.isSome_component contained
    cases (ancestorDefined.of_component array).2.2.1.symm.trans kind

/-- A class that is an ancestor of what is no array is extended. -/
theorem extends?_of_descends (defined : Defines sources c) (plain : c.component = none)
    (kind : d.isInterface = false) (descends : c.Descends d) : c.extends? d.name = true := by
  induction descends with
  | refl c => rw [extends?_eq, beq_self_eq_true, Bool.true_or]
  | superclass extended _ ih =>
    obtain ⟨aboveDefined, -, abovePlain⟩ := defined.plain_of_superclass rootExtensible extended
    rw [extends?_eq, extended, Option.any_some, ih aboveDefined abovePlain kind, Bool.or_true]
  | interface implemented descends _ =>
    obtain ⟨aboveDefined, aboveKind, -⟩ := defined.plain_of_interface rootExtensible implemented
    rcases aboveDefined.kind_of_descends rootExtensible aboveKind descends with clash | root
    · cases kind.symm.trans clash
    · obtain ⟨top, path, named, -⟩ := defined.exists_root
      exact extends?_iff.mpr ⟨top, path, named.trans root.symm⟩
  | array contained =>
    obtain ⟨type, array, -⟩ := defined.isSome_component contained
    cases plain.symm.trans array

theorem isAssignableTo_iff_of_plain (defined : Defines sources c) (plain : c.component = none)
    (targetDefined : Defines sources d) : c.isAssignableTo d = true ↔ c.Descends d := by
  rw [isAssignableTo_of_plain plain]
  split
  · next kind =>
    constructor
    · intro found
      rcases Bool.or_eq_true _ _ ▸ found with named | implemented
      · rw [defined.eq_of_name_eq targetDefined (beq_iff_eq.mp named)]
        exact .refl d
      · obtain ⟨ancestor, path, descends, named⟩ := exists_of_implements? implemented
        exact (defined.transGen_defined path).eq_of_name_eq targetDefined named ▸ descends
    · intro descends
      rcases defined.implements?_of_descends rootExtensible targetDefined kind descends with
        rfl | implemented
      · rw [beq_self_eq_true, Bool.true_or]
      · rw [implemented, Bool.or_true]
  · next kind =>
    have kind : d.isInterface = false := by rwa [Bool.not_eq_true] at kind
    constructor
    · intro extended
      obtain ⟨ancestor, path, named⟩ := extends?_iff.mp extended
      exact (defined.superclasses_defined path).eq_of_name_eq targetDefined named ▸ .of_superclasses path
    · exact defined.extends?_of_descends rootExtensible plain kind

/-- Above an array class there is the root, which is no array. -/
theorem descends_array_iff (defined : Defines sources c) {type : FieldType}
    (array : c.component = some type) (targetDefined : Defines sources d) :
    c.Descends d ↔ c = d ∨ d.name = ClassName.object ∨
      ∃ inner target, c.element = some inner ∧ d.element = some target ∧ inner.Descends target := by
  obtain ⟨-, noInterfaces, -, root, extended, named⟩ := defined.of_component array
  have rootDefined := defined.linksTo_defined (.superclass extended)
  constructor
  · intro descends
    cases descends with
    | refl => exact .inl rfl
    | superclass extended' descends =>
      cases extended.symm.trans extended'
      rw [rootDefined.eq_of_descends_root rootExtensible named descends]
      exact .inr (.inl named)
    | interface implemented =>
      rw [noInterfaces] at implemented
      cases implemented
    | array contained targetContained descends =>
      exact .inr (.inr ⟨_, _, contained, targetContained, descends⟩)
  · rintro (rfl | target | ⟨inner, target, contained, targetContained, descends⟩)
    · exact .refl c
    · rw [targetDefined.eq_of_name_eq rootDefined (target.trans named.symm)]
      exact .superclass extended (.refl root)
    · exact .array contained targetContained descends

/-- **Assignability is descent**: a class is assignable to its ancestors and to nothing else. -/
theorem isAssignableTo_iff (defined : Defines sources c) (targetDefined : Defines sources d) :
    c.isAssignableTo d = true ↔ c.Descends d := by
  induction c using LinksTo.wellFounded.induction generalizing d with
  | _ c ih =>
    cases array : c.component with
    | none => exact defined.isAssignableTo_iff_of_plain rootExtensible array targetDefined
    | some type =>
      rw [defined.descends_array_iff rootExtensible array targetDefined]
      cases arrays : d.component with
      | none =>
        rw [isAssignableTo_of_array array arrays, beq_iff_eq]
        constructor
        · exact fun root => .inr (.inl root)
        · rintro (rfl | root | ⟨_, _, -, contained, -⟩)
          · cases array.symm.trans arrays
          · exact root
          · obtain ⟨type, array, -⟩ := targetDefined.isSome_component contained
            cases arrays.symm.trans array
      | some expected =>
        rw [isAssignableTo_of_arrays array arrays]
        have notRoot : d.name ≠ ClassName.object := by
          intro root
          have plain := targetDefined.component_eq_none
            (.inl (rootExtensible d targetDefined root).2)
          cases plain.symm.trans arrays
        have inside {inner : LinkedClass} {type : FieldType} {c : LinkedClass}
            (defined : Defines sources c) (array : c.component = some type)
            (contained : c.element = some inner) : type.isReference = true := by
          obtain ⟨type', array', reference, -⟩ := defined.isSome_component contained
          cases array.symm.trans array'
          exact reference
        split
        · next references =>
          obtain ⟨reference, reference'⟩ := Bool.and_eq_true_iff.mp references
          obtain ⟨inner, contained⟩ := defined.exists_element array reference
          obtain ⟨target, contained'⟩ := targetDefined.exists_element arrays reference'
          rw [contained, contained', Option.any_some, Option.any_some,
            ih inner (.element contained) (defined.linksTo_defined (.element contained))
              (targetDefined.linksTo_defined (.element contained'))]
          constructor
          · exact fun descends => .inr (.inr ⟨inner, target, rfl, rfl, descends⟩)
          · rintro (rfl | root | ⟨_, _, same, same', descends⟩)
            · cases contained.symm.trans contained'
              exact .refl inner
            · exact absurd root notRoot
            · cases same
              cases same'
              exact descends
        · next primitive =>
          rw [beq_iff_eq]
          constructor
          · rintro rfl
            refine .inl (defined.eq_of_name_eq targetDefined ?_)
            rw [(defined.of_component array).1, (targetDefined.of_component arrays).1]
          · rintro (rfl | root | ⟨_, _, contained, contained', -⟩)
            · exact Option.some.inj (array.symm.trans arrays)
            · exact absurd root notRoot
            · exact absurd (Bool.and_eq_true_iff.mpr
                ⟨inside defined array contained, inside targetDefined arrays contained'⟩) primitive

end Defines

end Ancestors

end Loader

end JavaMachine
