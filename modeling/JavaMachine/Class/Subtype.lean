import JavaMachine.Class.Basic

/-! # Assignability

When a value of one class can stand where another is expected: a class for its superclasses and
superinterfaces, an array for `java/lang/Object` and for arrays of assignable elements. Classes are
compared by name. -/

namespace JavaMachine.LinkedClass

/-- Whether a class or one of its superclasses has a name. -/
def extends? (target : String) : LinkedClass → Bool
  | mk info none _ _ _ => info.name == target
  | mk info (some superclass) _ _ _ => info.name == target || superclass.extends? target

/-- Whether an interface with a name is among the superinterfaces of a class. -/
def implements? (target : String) : LinkedClass → Bool
  | mk _ superclass interfaces _ _ => inInterfaces interfaces || inSuperclass superclass
where
  inInterfaces : List LinkedClass → Bool
    | [] => false
    | first :: rest => first.name == target || implements? target first || inInterfaces rest
  inSuperclass : Option LinkedClass → Bool
    | none => false
    | some superclass => implements? target superclass

/-- Whether a value of the first class can be stored where the second one is expected. -/
def isAssignableTo : LinkedClass → LinkedClass → Bool
  | mk info superclass interfaces element table, target =>
    match info.component with
    | none =>
      let source := mk info superclass interfaces element table
      if target.isInterface then
        source.name == target.name || source.implements? target.name
      else source.extends? target.name
    | some component =>
      match target.component with
      | none => target.name == ClassName.object
      | some expected =>
        if component.isReference && expected.isReference then
          match element, target.element with
          | some sourceElement, some targetElement => sourceElement.isAssignableTo targetElement
          | _, _ => false
        else component == expected

end JavaMachine.LinkedClass
