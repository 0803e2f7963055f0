import JavaMachine.Proofs.Class.Selection

/-! # Slots of fields

Static fields are numbered in their class, and instance fields from the top of the hierarchy down: a
field has its place in the layout as its slot (`Loader.Defines.slot_staticField`,
`Loader.Defines.slot_instanceField`). A static field that is found by name is one of the class, of
an interface or of a superclass. -/

namespace JavaMachine

open LinkedClass

/-! ## Static fields by name -/

namespace LinkedClass

variable {name : String}

theorem inInterfaces_staticField?_eq (name : String) (interfaces : List LinkedClass) :
    staticField?.inInterfaces name interfaces = interfaces.findSome? (staticField? name) := by
  induction interfaces with
  | nil => rw [staticField?.inInterfaces, List.findSome?_nil]
  | cons first rest ih =>
    rw [staticField?.inInterfaces, List.findSome?_cons, ih]
    cases staticField? name first <;> rfl

theorem inSuperclass_staticField?_eq (name : String) (superclass : Option LinkedClass) :
    staticField?.inSuperclass name superclass = superclass.bind (staticField? name) := by
  cases superclass with
  | none => rw [staticField?.inSuperclass, Option.bind_none]
  | some above => rw [staticField?.inSuperclass, Option.bind_some]

theorem staticField?_eq (name : String) (c : LinkedClass) :
    c.staticField? name = ((c.declaredStaticField? name).map fun field => (c, field)).or
      ((c.interfaces.findSome? (staticField? name)).or
        (c.superclass.bind (staticField? name))) := by
  obtain ⟨info, superclass, interfaces, element, table⟩ := c
  rw [staticField?, inInterfaces_staticField?_eq, inSuperclass_staticField?_eq]
  change _ = ((info.staticFields.find? (·.name == name)).map fun field =>
    (mk info superclass interfaces element table, field)).or
      ((interfaces.findSome? (staticField? name)).or (superclass.bind (staticField? name)))
  cases info.staticFields.find? (·.name == name) with
  | some field => rfl
  | none => cases interfaces.findSome? (staticField? name) <;> rfl

end LinkedClass

/-! ## Slots -/

theorem Link.slot_withSlots {first position : Nat} {fields : List Field} {field : Field}
    (present : (Link.withSlots first fields)[position]? = some field) :
    field.slot = first + position := by
  rw [Link.withSlots, List.getElem?_mapIdx, Option.map_eq_some_iff] at present
  obtain ⟨_, -, rfl⟩ := present
  rfl

/-- Slots make no difference to anything else about fields. -/
theorem Link.map_withSlots {α : Type} {f : Field → α}
    (unslotted : ∀ (field : Field) slot, f { field with slot } = f field) (first : Nat)
    (fields : List Field) : (Link.withSlots first fields).map f = fields.map f := by
  refine List.ext_getElem? fun position => ?_
  rw [Link.withSlots, List.getElem?_map, List.getElem?_mapIdx, List.getElem?_map, Option.map_map]
  cases fields[position]? with
  | none => rfl
  | some field => exact congrArg some (unslotted field _)

namespace Loader.Defines

variable {sources : List ClassSource} {c owner : LinkedClass} {name : String} {field : Field}
  {position : Nat}

theorem slot_staticField (defined : Defines sources c)
    (present : c.staticFields[position]? = some field) : field.slot = position := by
  cases defined with
  | file _ _ _ _ _ _ _ linked =>
    simp only [Link.link, Except.bind_eq_ok_iff, Except.pure_eq_ok_iff] at linked
    obtain ⟨fields, -, methods, -, meanings, -, rfl⟩ := linked
    exact (Link.slot_withSlots present).trans (Nat.zero_add position)
  | array => cases present

/-- Inherited fields come first, with the slots they have above. -/
theorem slot_instanceField (defined : Defines sources c)
    (present : c.instanceFields[position]? = some field) : field.slot = position := by
  induction defined generalizing position with
  | @file _ _ _ superclass _ _ _ _ _ _ _ _ _ linked superclassSlots =>
    simp only [Link.link, Except.bind_eq_ok_iff, Except.pure_eq_ok_iff] at linked
    obtain ⟨fields, -, methods, -, meanings, -, rfl⟩ := linked
    rcases Nat.lt_or_ge position
        ((superclass.map LinkedClass.instanceFields).getD []).length with inherited | own
    · replace present := (List.getElem?_append_left inherited).symm.trans present
      cases superclass with
      | none => cases present
      | some above => exact superclassSlots above rfl present
    · replace present := (List.getElem?_append_right own).symm.trans present
      have slot := Link.slot_withSlots present
      omega
  | array => cases present

/-- A slot is that of one static field only. -/
theorem staticField_unique (defined : Defines sources c) {other : Field}
    (member : field ∈ c.staticFields) (otherMember : other ∈ c.staticFields)
    (same : other.slot = field.slot) : other = field := by
  obtain ⟨position, present⟩ := List.getElem?_of_mem member
  obtain ⟨position', present'⟩ := List.getElem?_of_mem otherMember
  have slot := defined.slot_staticField present
  have slot' := defined.slot_staticField present'
  obtain rfl : position' = position := slot'.symm.trans (same.trans slot)
  exact Option.some.inj (present'.symm.trans present)

/-- A static field that is found is declared by the class with which it is found. -/
theorem declared_of_staticField? (defined : Defines sources c)
    (found : c.staticField? name = some (owner, field)) :
    Defines sources owner ∧ field ∈ owner.staticFields := by
  induction c using LinksTo.wellFounded.induction with
  | _ c ih =>
    rw [staticField?_eq, Option.or_eq_some_iff, Option.or_eq_some_iff] at found
    rcases found with declared | ⟨-, inInterfaces | ⟨-, inSuperclass⟩⟩
    · obtain ⟨_, declared, ⟨⟩⟩ := Option.map_eq_some_iff.mp declared
      exact ⟨defined, List.mem_of_find?_eq_some declared⟩
    · obtain ⟨above, implemented, found⟩ := List.exists_of_findSome?_eq_some inInterfaces
      have links : c.LinksTo above := .interface implemented
      exact ih above links (defined.linksTo_defined links) found
    · obtain ⟨above, extended, found⟩ := Option.bind_eq_some_iff.mp inSuperclass
      have links : c.LinksTo above := .superclass extended
      exact ih above links (defined.linksTo_defined links) found

end Loader.Defines

end JavaMachine
