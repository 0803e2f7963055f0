import JavaMachine.Proofs.Class.Coherence
import JavaMachine.Proofs.Class.Ancestry

/-! # Subtyping

The subtype relation is the least preorder that leads from a class to its superclass and to its
interfaces, from an array to `java/lang/Object`, and from an array to the arrays of supertypes of its
elements. The check whether a value can be stored decides it (`Loader.isAssignableTo_iff_subtype`),
although it goes three ways for arrays, interfaces and other classes, and compares names. -/

namespace JavaMachine

namespace LinkedClass

/-- The subtypes among some classes: the least reflexive and transitive relation that goes up the
hierarchy. -/
inductive Subtype (Class : LinkedClass → Prop) : LinkedClass → LinkedClass → Prop where
  | refl {c : LinkedClass} (inside : Class c) : Subtype Class c c
  | trans {c d e : LinkedClass} (near : Subtype Class c d) (far : Subtype Class d e) :
      Subtype Class c e
  | superclass {c above : LinkedClass} (inside : Class c) (extended : c.superclass = some above) :
      Subtype Class c above
  | interface {c above : LinkedClass} (inside : Class c) (implemented : above ∈ c.interfaces) :
      Subtype Class c above
  | root {c root : LinkedClass} (inside : Class c) (array : c.isArray = true)
      (rootInside : Class root) (named : root.name = ClassName.object) : Subtype Class c root
  | elements {c d inner innerTarget : LinkedClass} (inside : Class c) (targetInside : Class d)
      (contained : c.element = some inner) (targetContained : d.element = some innerTarget)
      (below : Subtype Class inner innerTarget) : Subtype Class c d
  | primitives {c d : LinkedClass} {type : FieldType} (inside : Class c) (targetInside : Class d)
      (array : c.component = some type) (targetArray : d.component = some type)
      (primitive : type.isReference = false) : Subtype Class c d

end LinkedClass

namespace Loader

open LinkedClass

variable {sources : List ClassSource} {Class : LinkedClass → Prop} {c d e : LinkedClass}

section Ancestors

variable (rootExtensible : ∀ root, Defines sources root → root.name = ClassName.object →
  root.isInterface = false ∧ root.flags.isFinal = false)

include rootExtensible

namespace Defines

omit rootExtensible in
/-- Every class is below the root. -/
theorem descends_root (defined : Defines sources c) (rootDefined : Defines sources d)
    (named : d.name = ClassName.object) : c.Descends d := by
  obtain ⟨top, path, topNamed, -⟩ := defined.exists_root
  have topDefined := defined.superclasses_defined path
  rw [← topDefined.eq_of_name_eq rootDefined (topNamed.trans named.symm)]
  exact .of_superclasses path

theorem isAssignableTo_root (defined : Defines sources c) (rootDefined : Defines sources d)
    (named : d.name = ClassName.object) : c.isAssignableTo d = true :=
  (defined.isAssignableTo_iff rootExtensible rootDefined).mpr
    (defined.descends_root rootDefined named)

/-- What is above the class of an ancestor's elements is found again from below. -/
theorem descends_trans (defined : Defines sources c) (middleDefined : Defines sources d)
    (targetDefined : Defines sources e) (near : c.Descends d) (far : d.Descends e) :
    c.Descends e := by
  induction near generalizing e with
  | refl => exact far
  | superclass extended _ ih =>
    have aboveDefined := defined.linksTo_defined (.superclass extended)
    exact .superclass extended (ih aboveDefined middleDefined targetDefined far)
  | interface implemented _ ih =>
    have aboveDefined := defined.linksTo_defined (.interface implemented)
    exact .interface implemented (ih aboveDefined middleDefined targetDefined far)
  | array contained middleContained near ih =>
    obtain ⟨type, array, -⟩ := defined.isSome_component contained
    obtain ⟨middleType, middleArray, -⟩ := middleDefined.isSome_component middleContained
    rcases (middleDefined.descends_array_iff rootExtensible middleArray targetDefined).mp far with
      rfl | root | ⟨inner, target, sameInner, targetContained, above⟩
    · exact .array contained middleContained near
    · exact defined.descends_root targetDefined root
    · cases middleContained.symm.trans sameInner
      refine .array contained targetContained (ih ?_ ?_ ?_ above)
      · exact defined.linksTo_defined (.element contained)
      · exact middleDefined.linksTo_defined (.element middleContained)
      · exact targetDefined.linksTo_defined (.element targetContained)

end Defines

variable (defined : ∀ c, Class c → Defines sources c)
  (closed : ∀ c d, Class c → c.LinksTo d → Class d)

include defined closed

omit rootExtensible defined in
/-- What is above one of some classes is one of them. -/
theorem inside_of_subtype (below : c.Subtype Class d) : Class c ∧ Class d := by
  induction below with
  | refl inside => exact ⟨inside, inside⟩
  | trans _ _ near far => exact ⟨near.1, far.2⟩
  | superclass inside extended => exact ⟨inside, closed _ _ inside (.superclass extended)⟩
  | interface inside implemented => exact ⟨inside, closed _ _ inside (.interface implemented)⟩
  | root inside _ rootInside _ => exact ⟨inside, rootInside⟩
  | elements inside targetInside => exact ⟨inside, targetInside⟩
  | primitives inside targetInside => exact ⟨inside, targetInside⟩

omit rootExtensible defined in
theorem subtype_of_descends (inside : Class c) (targetInside : Class d) (descends : c.Descends d) :
    c.Subtype Class d := by
  induction descends with
  | refl => exact .refl inside
  | superclass extended _ ih =>
    exact .trans (.superclass inside extended)
      (ih (closed _ _ inside (.superclass extended)) targetInside)
  | interface implemented _ ih =>
    exact .trans (.interface inside implemented)
      (ih (closed _ _ inside (.interface implemented)) targetInside)
  | array contained targetContained _ ih =>
    exact .elements inside targetInside contained targetContained
      (ih (closed _ _ inside (.element contained)) (closed _ _ targetInside (.element targetContained)))

theorem descends_of_subtype (below : c.Subtype Class d) : c.Descends d := by
  induction below with
  | refl => exact .refl _
  | trans near far nearDescends farDescends =>
    obtain ⟨inside, middleInside⟩ := inside_of_subtype closed near
    have targetInside := (inside_of_subtype closed far).2
    exact (defined _ inside).descends_trans rootExtensible (defined _ middleInside)
      (defined _ targetInside) nearDescends farDescends
  | superclass _ extended => exact .superclass extended (.refl _)
  | interface _ implemented => exact .interface implemented (.refl _)
  | root inside _ rootInside named =>
    exact (defined _ inside).descends_root (defined _ rootInside) named
  | elements _ _ contained targetContained _ ih => exact .array contained targetContained ih
  | @primitives c d _ inside targetInside array targetArray _ =>
    -- Arrays of one primitive type are one class.
    have named : c.name = d.name := by
      rw [((defined c inside).of_component array).1,
        ((defined d targetInside).of_component targetArray).1]
    rw [(defined c inside).eq_of_name_eq (defined d targetInside) named]
    exact .refl d

/-- **The check decides the subtype relation**, among any defined classes with all that they are
linked to. -/
theorem isAssignableTo_iff_subtype (inside : Class c) (targetInside : Class d) :
    c.isAssignableTo d = true ↔ c.Subtype Class d := by
  rw [(defined c inside).isAssignableTo_iff rootExtensible (defined d targetInside)]
  exact ⟨subtype_of_descends closed inside targetInside,
    descends_of_subtype rootExtensible defined closed⟩

end Ancestors

end Loader

end JavaMachine
