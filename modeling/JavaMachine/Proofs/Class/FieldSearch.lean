import JavaMachine.Instruction.Field
import JavaMachine.Proofs.Class.Layout

/-! # Fields in reach

A field reference is looked for by its name alone, and the first field that is found must have its
type. For a static field that is the first one in the class, then in its interfaces and what they
extend, and last in its superclass and what that reaches (`LinkedClass.staticField?_eq_find?`); for a
field of instances it is the most derived one (`Loader.Defines.instanceField?_eq_find?`). So a field
counts with its name and type as long as no other field of its name is met before
(`FieldSymbol.picks_of_find?`). -/

namespace JavaMachine

namespace LinkedClass

/-! ## Static fields -/

/-- The classes in which a static field is looked for, one after the other. -/
def searched : LinkedClass → List LinkedClass
  | mk info superclass interfaces element table =>
    mk info superclass interfaces element table :: (ofInterfaces interfaces ++ ofSuperclass superclass)
where
  ofInterfaces : List LinkedClass → List LinkedClass
    | [] => []
    | first :: rest => searched first ++ ofInterfaces rest
  ofSuperclass : Option LinkedClass → List LinkedClass
    | none => []
    | some above => searched above

/-- First the class itself, then where its interfaces look, and last where its superclass looks. -/
theorem searched_eq (c : LinkedClass) :
    c.searched = c :: (c.interfaces.flatMap searched ++ (c.superclass.map searched).getD []) := by
  have ofInterfaces (interfaces : List LinkedClass) :
      searched.ofInterfaces interfaces = interfaces.flatMap searched := by
    induction interfaces with
    | nil => rfl
    | cons first rest ih => rw [searched.ofInterfaces, List.flatMap_cons, ih]
  obtain ⟨info, superclass, interfaces, element, table⟩ := c
  rw [searched, ofInterfaces]
  cases superclass with
  | none => rfl
  | some above => rw [searched.ofSuperclass]; rfl

/-- The static fields in reach of a class, each with the class that declares it, in the order in which
they are looked at. -/
def staticFieldsInReach (c : LinkedClass) : List (LinkedClass × Field) :=
  c.searched.flatMap fun owner => owner.staticFields.map (owner, ·)

theorem staticFieldsInReach_eq (c : LinkedClass) :
    c.staticFieldsInReach = c.staticFields.map (c, ·) ++
      (c.interfaces.flatMap staticFieldsInReach ++
        (c.superclass.map staticFieldsInReach).getD []) := by
  rw [staticFieldsInReach, searched_eq, List.flatMap_cons, List.flatMap_append, List.flatMap_assoc]
  cases c.superclass <;> rfl

/-- A static field that is found by its name is the first one in reach. -/
theorem staticField?_eq_find? (name : String) (c : LinkedClass) :
    c.staticField? name = c.staticFieldsInReach.find? (·.2.name == name) := by
  induction c using LinksTo.wellFounded.induction with
  | _ c ih =>
    have own : (c.staticFields.map (c, ·)).find? (·.2.name == name) =
        (c.declaredStaticField? name).map fun field => (c, field) := List.find?_map ..
    have implemented : (c.interfaces.flatMap staticFieldsInReach).find? (·.2.name == name) =
        c.interfaces.findSome? (staticField? name) := by
      have same := List.map_congr_left fun above member => ih above (.interface member)
      have first := congrArg (List.findSome? id) same
      rw [List.findSome?_map, List.findSome?_map] at first
      rw [List.find?_flatMap]
      exact first.symm
    have extended : ((c.superclass.map staticFieldsInReach).getD []).find? (·.2.name == name) =
        c.superclass.bind (staticField? name) := by
      cases above : c.superclass with
      | none => rfl
      | some above' => exact (ih above' (.superclass above)).symm
    rw [staticField?_eq, staticFieldsInReach_eq, List.find?_append, List.find?_append, own,
      implemented, extended]

/-! ## Fields of instances -/

/-- The fields of instances that a class adds to those of its superclass. -/
def ownInstanceFields (c : LinkedClass) : List Field :=
  c.instanceFields.drop ((c.superclass.map instanceFields).getD []).length

/-- A class and its superclasses, from the class upwards. -/
def upwards : LinkedClass → List LinkedClass
  | mk info superclass interfaces element table =>
    mk info superclass interfaces element table :: ofSuperclass superclass
where
  ofSuperclass : Option LinkedClass → List LinkedClass
    | none => []
    | some above => upwards above

theorem upwards_eq (c : LinkedClass) : c.upwards = c :: (c.superclass.map upwards).getD [] := by
  obtain ⟨info, superclass, interfaces, element, table⟩ := c
  rw [upwards]
  cases superclass with
  | none => rfl
  | some above => rw [upwards.ofSuperclass]; rfl

/-- The fields of instances of a class, each with the class that declares it, the most derived ones
first. -/
def instanceFieldsInReach (c : LinkedClass) : List (LinkedClass × Field) :=
  c.upwards.flatMap fun owner => owner.ownInstanceFields.reverse.map (owner, ·)

theorem instanceFieldsInReach_eq (c : LinkedClass) :
    c.instanceFieldsInReach = c.ownInstanceFields.reverse.map (c, ·) ++
      (c.superclass.map instanceFieldsInReach).getD [] := by
  rw [instanceFieldsInReach, upwards_eq, List.flatMap_cons]
  cases c.superclass <;> rfl

end LinkedClass

open LinkedClass

namespace Link

variable {file : ClassFile} {pool : Array Constant} {name : String} {superclass : Option LinkedClass}
  {interfaces : List LinkedClass} {c : LinkedClass}

/-- What a class adds are the fields of its file that are not static, and they come last. -/
theorem ownInstanceFields_link (linked : link file pool name superclass interfaces = .ok c) :
    ∃ fields, file.fields.mapM (field pool) = .ok fields ∧
      c.ownInstanceFields = withSlots ((superclass.map LinkedClass.instanceFields).getD []).length
        (fields.filter (!·.flags.isStatic)) ∧
      c.instanceFields =
        (superclass.map LinkedClass.instanceFields).getD [] ++ c.ownInstanceFields := by
  have extended := (parts_of_link linked).2.2.1
  obtain ⟨-, ⟨fields, listed, -, layout⟩, -⟩ := members_of_link linked
  have own : c.ownInstanceFields = withSlots
      ((superclass.map LinkedClass.instanceFields).getD []).length
        (fields.filter (!·.flags.isStatic)) := by
    rw [ownInstanceFields, extended, layout, List.drop_left]
  exact ⟨fields, listed, own, own ▸ layout⟩

end Link

namespace Loader.Defines

variable {sources : List ClassSource} (bare : ∀ root, Defines sources root →
  root.name = ClassName.object → root.instanceFields = []) {c : LinkedClass}

include bare

/-- The fields of instances from the most derived ones upwards are the layout backwards: arrays have
no fields, and neither has the root class. -/
theorem map_instanceFieldsInReach (defined : Defines sources c) :
    c.instanceFieldsInReach.map Prod.snd = c.instanceFields.reverse := by
  have own (c : LinkedClass) : (c.ownInstanceFields.reverse.map (c, ·)).map Prod.snd =
      c.ownInstanceFields.reverse := by
    rw [List.map_map]
    exact List.map_id _
  induction defined with
  | @file _ _ _ superclass _ c _ _ _ _ _ _ _ linked inherited =>
    obtain ⟨-, -, -, layout⟩ := Link.ownInstanceFields_link linked
    rw [instanceFieldsInReach_eq, layout, List.reverse_append, List.map_append, own,
      (Link.parts_of_link linked).2.2.1]
    cases superclass with
    | none => rfl
    | some above => exact congrArg (_ ++ ·) (inherited above rfl)
  | @array name component element object _ _ root _ rootDefined _ inherited =>
    have none : (Link.arrayClass name component element object).ownInstanceFields = [] :=
      List.drop_nil
    rw [instanceFieldsInReach_eq, List.map_append, own, none]
    change object.instanceFieldsInReach.map Prod.snd = []
    rw [inherited, bare object rootDefined root, List.reverse_nil]

/-- A field of instances that is found by its name is the most derived one. -/
theorem instanceField?_eq_find? (defined : Defines sources c) (name : String) :
    c.instanceField? name =
      (c.instanceFieldsInReach.find? (·.2.name == name)).map Prod.snd := by
  rw [instanceField?, ← defined.map_instanceFieldsInReach bare, List.find?_map]
  rfl

end Loader.Defines

/-! ## Fields by name and type -/

namespace FieldSymbol

variable {symbol : FieldSymbol} {c : LinkedClass} {candidates : List (LinkedClass × Field)}
  {link : LinkedClass × Field → Linkage} {result : Except Interruption Linkage}

/-- Whether a field has the name and the type of a reference. -/
def names (symbol : FieldSymbol) (field : Field) : Bool :=
  field.name == symbol.name && field.type == symbol.type

/-- There is a field of the name and the type of a reference, but the first one of the name has
another type. -/
def Hidden (symbol : FieldSymbol) (candidates : List (LinkedClass × Field)) : Prop :=
  ∃ first, candidates.find? (·.2.name == symbol.name) = some first ∧ first.2.type ≠ symbol.type ∧
    ∃ named ∈ candidates, symbol.names named.2 = true

/-- A reference to a field of a class is linked to the first field of its name and type, unless that
is hidden. -/
structure Picks (symbol : FieldSymbol) (c : LinkedClass) (candidates : List (LinkedClass × Field))
    (link : LinkedClass × Field → Linkage) (result : Except Interruption Linkage) : Prop where
  first (visible : ¬ symbol.Hidden candidates) :
    result = (candidates.find? (symbol.names ·.2)).elim (.error (.fatal (symbol.notIn c)))
      (.ok ∘ link)
  hidden (hidden : symbol.Hidden candidates) : result = .error (.fatal (symbol.notIn c))

theorem names_iff {field : Field} :
    symbol.names field = true ↔ field.name = symbol.name ∧ field.type = symbol.type := by
  rw [names, Bool.and_eq_true, beq_iff_eq, beq_iff_eq]

/-- The first field of the name must be of the type. -/
theorem picks_of_find?
    (fits : ∀ first, candidates.find? (·.2.name == symbol.name) = some first →
      result = if first.2.type = symbol.type then .ok (link first)
        else .error (.fatal (symbol.notIn c)))
    (missing : candidates.find? (·.2.name == symbol.name) = none →
      result = .error (.fatal (symbol.notIn c))) : symbol.Picks c candidates link result where
  first visible := by
    cases found : candidates.find? (·.2.name == symbol.name) with
    | none =>
      have none : candidates.find? (symbol.names ·.2) = none := by
        rw [List.find?_eq_none] at found ⊢
        exact fun other member named => found other member (beq_iff_eq.mpr (names_iff.mp named).1)
      rw [missing found, none]
      rfl
    | some first =>
      obtain ⟨sameName, before, after, split, others⟩ := List.find?_eq_some_iff_append.mp found
      by_cases typed : first.2.type = symbol.type
      · have isFirst : candidates.find? (symbol.names ·.2) = some first := by
          refine List.find?_eq_some_iff_append.mpr
            ⟨names_iff.mpr ⟨beq_iff_eq.mp sameName, typed⟩, before, after, split, ?_⟩
          intro other member
          have differs := others other member
          rw [names]
          rw [Bool.not_eq_true'] at differs ⊢
          rw [differs, Bool.false_and]
        rw [fits first found, if_pos typed, isFirst]
        rfl
      · have none : candidates.find? (symbol.names ·.2) = none := by
          refine List.find?_eq_none.mpr fun named member isNamed => visible ?_
          exact ⟨first, found, typed, named, member, isNamed⟩
        rw [fits first found, if_neg typed, none]
        rfl
  hidden hidden := by
    obtain ⟨first, found, typed, -⟩ := hidden
    rw [fits first found, if_neg typed]

/-- A static field is the first one that the class, its interfaces and its superclass have to
offer. -/
theorem picks_findStatic (symbol : FieldSymbol) (c : LinkedClass) :
    symbol.Picks c c.staticFieldsInReach (fun found => .staticField found.1 found.2.slot)
      ((symbol.findStatic c).mapError .fatal) := by
  refine picks_of_find? (fun first found => ?_) fun missing => ?_
  · rw [findStatic, staticField?_eq_find?, found]
    exact apply_ite (Except.mapError Interruption.fatal) ..
  · rw [findStatic, staticField?_eq_find?, missing]
    rfl

/-- A field of instances is the most derived one. -/
theorem picks_findInstance {sources : List ClassSource}
    (bare : ∀ root, Loader.Defines sources root → root.name = ClassName.object →
      root.instanceFields = []) (defined : Loader.Defines sources c) (symbol : FieldSymbol) :
    symbol.Picks c c.instanceFieldsInReach (fun found => .instanceField found.2.slot)
      ((symbol.findInstance c).mapError .fatal) := by
  refine picks_of_find? (fun first found => ?_) fun missing => ?_
  · rw [findInstance, defined.instanceField?_eq_find? bare, found]
    exact apply_ite (Except.mapError Interruption.fatal) ..
  · rw [findInstance, defined.instanceField?_eq_find? bare, missing]
    rfl

end FieldSymbol

end JavaMachine
