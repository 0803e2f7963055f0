import JavaMachine.Class.Subtype
import JavaMachine.Proofs.Class.Ancestry
import JavaMachine.Proofs.Class.Layout
import JavaMachine.Proofs.Machine.Informed

/-! # What sources provide

What is known of classes while code runs is that the sources define them: so do they the classes
that own the methods and the static fields which are found. A constant is linked to what its class
says when it is resolved, whatever was linked before (`Resolves`). References may point to no object
at all, which counts as one of a class that is like no other. -/

namespace JavaMachine

open Loader (Defines)

variable {sources : List ClassSource}

/-! ## Classes of objects -/

/-- A class that the sources define, or the one that stands for none. -/
def Provided (sources : List ClassSource) (c : LinkedClass) : Prop :=
  Defines sources c ∨ c = default

namespace LinkedClass

theorem findMethod?_default (key : String) : (default : LinkedClass).findMethod? key = none :=
  rfl

theorem element_default : (default : LinkedClass).element = none :=
  rfl

theorem component_default : (default : LinkedClass).component = none :=
  rfl

end LinkedClass

namespace Provided

variable {c owner inner : LinkedClass}

theorem method {key : String} {index : Nat} (provided : Provided sources c)
    (selected : c.findMethod? key = some (owner, index)) :
    Defines sources owner ∧ index < owner.methods.size := by
  rcases provided with defined | rfl
  · obtain ⟨inside, -⟩ := defined.tablesBuilt.key_of_findMethod? selected
    have present : owner.method? index = some owner.methods[index] := Array.getElem?_eq_getElem inside
    exact ⟨(defined.declares_of_selects ⟨index, selected, present⟩).1, inside⟩
  · rw [LinkedClass.findMethod?_default] at selected
    cases selected

theorem defined (provided : Provided sources c) (contained : c.element = some inner) :
    Defines sources c := by
  rcases provided with defined | rfl
  · exact defined
  · rw [LinkedClass.element_default] at contained
    cases contained

end Provided

/-! ## Knowledge -/

/-- The classes that the sources provide, their methods and their static fields. -/
def Knowledge.provided (sources : List ClassSource) : Knowledge where
  Class := Defines sources
  Named name c := Defines sources c ∧ c.name = name
  Instance := Provided sources
  Key := anything
  Method owner index := Defines sources owner ∧ index < owner.methods.size
  Static c slot type :=
    Defines sources c ∧ ∃ field ∈ c.staticFields, field.slot = slot ∧ field.type = type
  ofNamed := And.left
  ofClass := .inl
  linked isKnown links := isKnown.linksTo_defined links
  key_of_ne _ := trivial
  declared isKnown present _ := ⟨isKnown, (Array.getElem?_eq_some_iff.mp present).1⟩
  found isKnown _ selected := isKnown.method selected
  owner := And.left
  static isKnown found :=
    have ⟨defined, member⟩ := isKnown.declared_of_staticField? found
    ⟨defined, defined, _, member, rfl, rfl⟩

/-- What a constant of a class stands for when it is resolved, as a class, a field or a method. -/
inductive Resolves (sources : List ClassSource) (c : LinkedClass) (index : UInt16) :
    Linkage → Prop where
  | named {found : Constant} {d : LinkedClass} (constant : c.constant? index = some found)
      (names : found.className? = some d.name) (defined : Defines sources d) :
      Resolves sources c index (.named d)
  | staticField {symbol : FieldSymbol} {d owner : LinkedClass} {field : Field}
      (constant : c.constant? index = some (.fieldref symbol)) (defined : Defines sources d)
      (named : d.name = symbol.owner) (found : d.staticField? symbol.name = some (owner, field))
      (typed : field.type = symbol.type) : Resolves sources c index (.staticField owner field.slot)
  | instanceField {symbol : FieldSymbol} {d : LinkedClass} {field : Field}
      (constant : c.constant? index = some (.fieldref symbol)) (defined : Defines sources d)
      (named : d.name = symbol.owner) (found : d.instanceField? symbol.name = some field)
      (typed : field.type = symbol.type) : Resolves sources c index (.instanceField field.slot)
  | method {symbol : MethodSymbol} {d owner : LinkedClass} {position : Nat}
      (constant : c.constant? index = some (.methodref symbol) ∨
        c.constant? index = some (.interfaceMethodref symbol)) (defined : Defines sources d)
      (named : d.name = symbol.owner)
      (selected : d.findMethod? symbol.key = some (owner, position)) :
      Resolves sources c index (.method owner position)

/-- The constants of a class, linked to what they stand for. -/
def Knowledge.Pool.resolved (sources : List ClassSource) (c : LinkedClass) :
    (Knowledge.provided sources).Pool where
  Constant index constant := c.constant? index = some constant
  Link := Resolves sources c
  linkNamed constant names isKnown :=
    .named constant (names.trans (congrArg some isKnown.2.symm)) isKnown.1
  linkStatic constant isKnown found typed := .staticField constant isKnown.1 isKnown.2 found typed
  linkInstance constant isKnown found typed :=
    .instanceField constant isKnown.1 isKnown.2 found typed
  linkMethod constant isKnown selected := .method constant isKnown.1 isKnown.2 selected
  named constant names link := by
    cases link with
    | named constant' names' defined =>
      cases constant.symm.trans constant'
      exact ⟨defined, Option.some.inj (names'.symm.trans names)⟩
  static constant link := by
    cases link with
    | staticField constant' defined _ found typed =>
      cases constant.symm.trans constant'
      obtain ⟨ownerDefined, member⟩ := defined.declared_of_staticField? found
      exact ⟨ownerDefined, ownerDefined, _, member, rfl, typed⟩
  method link := by
    cases link with
    | method _ defined _ selected => exact Provided.method (.inl defined) selected
  callable _ := trivial

/-! ## Assignability -/

namespace Loader.Defines

variable {c inner : LinkedClass}

theorem isAssignableTo_self (defined : Defines sources c) : c.isAssignableTo c = true := by
  induction c using LinkedClass.LinksTo.wellFounded.induction with
  | _ c ih =>
    cases array : c.component with
    | none =>
      rw [LinkedClass.isAssignableTo_of_plain array]
      split
      · rw [beq_self_eq_true, Bool.true_or]
      · rw [LinkedClass.extends?_eq, beq_self_eq_true, Bool.true_or]
    | some type =>
      rw [LinkedClass.isAssignableTo_of_arrays array array]
      split
      · next references =>
        have reference := (Bool.and_eq_true_iff.mp references).1
        obtain ⟨inner, contained⟩ := defined.exists_element array reference
        rw [contained, Option.any_some, Option.any_some]
        exact ih inner (.element contained) (defined.linksTo_defined (.element contained))
      · exact beq_self_eq_true type

/-- The class with the name of an array is one of arrays of this type. -/
theorem component_of_name (defined : Defines sources c) {component : FieldType}
    (named : c.name = (FieldType.array component).descriptor) : c.component = some component := by
  cases defined with
  | file described _ _ _ _ _ _ linked =>
    have plain := described.plain
    rw [← (Link.parts_of_link linked).1, named, FieldType.startsWith_descriptor_array] at plain
    cases plain
  | array spelled =>
    obtain rfl := named
    cases FieldType.eq_of_ofDescriptor?_descriptor spelled
    rfl

/-- The class of the elements of arrays has a name. -/
theorem name_element_ne (defined : Defines sources c) (contained : c.element = some inner) :
    inner.name ≠ "" := by
  cases defined with
  | file _ _ _ _ _ _ _ linked => cases (Link.parts_of_link linked).2.2.2.2.1.symm.trans contained
  | @array name component element object spelled elementFits =>
    obtain rfl : element = some inner := contained
    obtain ⟨reference, named⟩ := elementFits.name_eq
    have written := (FieldType.ofDescriptor?_eq_some_iff.mp spelled).1
    rw [named]
    cases component with
    | object name => exact written.1
    | array component => exact FieldType.descriptor_array_ne component
    | _ => cases reference

end Loader.Defines

/-- What is no object is none of a class with a name. -/
theorem LinkedClass.not_assignable_default {c : LinkedClass} (named : c.name ≠ "") :
    (default : LinkedClass).isAssignableTo c = false := by
  have differs : ("" == c.name) = false := beq_eq_false_iff_ne.mpr (Ne.symm named)
  rw [isAssignableTo_of_plain component_default, extends?_eq, implements?_eq]
  change (if c.isInterface = true then ("" == c.name) || (false || false)
    else ("" == c.name) || false) = false
  rw [differs]
  split <;> rfl

end JavaMachine
