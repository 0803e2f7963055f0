import JavaMachine.Proofs.Class.FieldSearch
import JavaMachine.Proofs.Machine.Sound

/-! # Inherited fields

The fields of instances that a class declares follow those of its superclass
(`Loader.Defines.exists_laysOut`), so that the layout of a class starts with that of every class above
it (`LinkedClass.layout_extends`). The slot that a field reference is resolved to in the class it names
is therefore that of one and the same field, declared by the same class, in all classes below
(`Loader.Defines.exists_standsFor`). -/

namespace JavaMachine

open Loader (Defines Describes)

namespace LinkedClass

variable {c d owner : LinkedClass} {field : Field} {slot : Nat}

/-- The layout of the instances of a class, each field with the class that declares it. -/
def layout (c : LinkedClass) : List (LinkedClass × Field) :=
  c.instanceFieldsInReach.reverse

theorem layout_eq (c : LinkedClass) :
    c.layout = (c.superclass.map layout).getD [] ++ c.ownInstanceFields.map (c, ·) := by
  rw [layout, instanceFieldsInReach_eq, List.reverse_append, ← List.map_reverse,
    List.reverse_reverse]
  cases c.superclass <;> rfl

/-- What is inherited comes first. -/
theorem layout_extends (above : c ∈ d.upwards) : c.layout <+: d.layout := by
  induction d using LinksTo.wellFounded.induction with
  | _ d ih =>
    rw [upwards_eq, List.mem_cons] at above
    rcases above with rfl | above
    · exact List.prefix_rfl
    · cases extended : d.superclass with
      | none =>
        rw [extended] at above
        cases above
      | some inherited =>
        rw [extended] at above
        refine (ih inherited (.superclass extended) above).trans ?_
        rw [d.layout_eq, extended]
        exact List.prefix_append ..

/-- Classes above those above are above. -/
theorem mem_upwards_trans (above : c ∈ d.upwards) (further : owner ∈ c.upwards) :
    owner ∈ d.upwards := by
  induction d using LinksTo.wellFounded.induction with
  | _ d ih =>
    rw [upwards_eq, List.mem_cons] at above
    rcases above with rfl | above
    · exact further
    · rw [upwards_eq]
      cases extended : d.superclass with
      | none =>
        rw [extended] at above
        cases above
      | some inherited =>
        rw [extended] at above
        exact List.mem_cons_of_mem _ (ih inherited (.superclass extended) above)

theorem getElem?_of_prefix {α : Type} {entries longer : List α} {entry : α} {position : Nat}
    (starts : entries <+: longer) (present : entries[position]? = some entry) :
    longer[position]? = some entry := by
  obtain ⟨inside, rfl⟩ := List.getElem?_eq_some_iff.mp present
  exact List.prefix_iff_getElem?.mp starts position inside

/-- A field of the layout is declared by the class that it comes with. -/
theorem declared_of_mem_layout (member : (owner, field) ∈ c.layout) :
    owner ∈ c.upwards ∧ field ∈ owner.ownInstanceFields := by
  obtain ⟨declarer, above, own⟩ := List.mem_flatMap.mp (List.mem_reverse.mp member)
  obtain ⟨_, declared, same⟩ := List.mem_map.mp own
  obtain ⟨rfl, rfl⟩ := Prod.mk.inj same
  exact ⟨above, List.mem_reverse.mp declared⟩

end LinkedClass

open LinkedClass

/-! ## What classes declare -/

/-- The fields that a class declares: those of its file in their order, and none if it is an array
class. -/
inductive Loader.DeclaresFields (sources : List ClassSource) (c : LinkedClass) : List Field → Prop where
  | file {file : ClassFile} {pool : Array Constant} {fields : List Field}
      (described : Describes sources c.name file pool)
      (listed : file.fields.mapM (Link.field pool) = .ok fields) : DeclaresFields sources c fields
  | array {component : FieldType} (typed : c.component = some component) :
      DeclaresFields sources c []

/-- The fields of a class are laid out in two blocks: those of instances come after those of the
superclass, and the static ones are on their own. Both are in the order in which they are declared,
and the slot of a field is its position. -/
structure LinkedClass.LaysOut (c : LinkedClass) (declared : List Field) : Prop where
  «instance» : c.instanceFields = (c.superclass.map instanceFields).getD [] ++
    Link.withSlots ((c.superclass.map instanceFields).getD []).length
      (declared.filter (!·.flags.isStatic))
  static : c.staticFields = Link.withSlots 0 (declared.filter (·.flags.isStatic))
  instanceSlot (position : Nat) (field : Field)
    (present : c.instanceFields[position]? = some field) : field.slot = position
  staticSlot (position : Nat) (field : Field)
    (present : c.staticFields[position]? = some field) : field.slot = position

/-- A slot holds the field that a reference stands for: the field has the name and the type of the
reference and this slot, and is declared by a class. -/
structure FieldSymbol.StandsFor (symbol : FieldSymbol) (slot : Nat) (owner : LinkedClass)
    (field : Field) (d : LinkedClass) : Prop where
  layout : d.layout[slot]? = some (owner, field)
  present : d.instanceFields[slot]? = some field
  slot : field.slot = slot
  name : field.name = symbol.name
  type : field.type = symbol.type

namespace Loader.Defines

variable {sources : List ClassSource} {c d : LinkedClass} {symbol : FieldSymbol} {slot : Nat}

theorem superclass_defined (defined : Defines sources d) (above : c ∈ d.upwards) :
    Defines sources c := by
  induction d using LinksTo.wellFounded.induction with
  | _ d ih =>
    rw [upwards_eq, List.mem_cons] at above
    rcases above with rfl | above
    · exact defined
    · cases extended : d.superclass with
      | none =>
        rw [extended] at above
        cases above
      | some inherited =>
        rw [extended] at above
        have links : d.LinksTo inherited := .superclass extended
        exact ih inherited links (defined.linksTo_defined links) above

variable (bare : ∀ root, Defines sources root → root.name = ClassName.object →
  root.instanceFields = [])

include bare

/-- **The fields of a class are laid out** as it declares them, after those that it inherits. -/
theorem exists_laysOut (defined : Defines sources c) :
    ∃ declared, DeclaresFields sources c declared ∧ c.LaysOut declared := by
  have instanceSlot position field (present : c.instanceFields[position]? = some field) :=
    defined.slot_instanceField present
  have staticSlot position field (present : c.staticFields[position]? = some field) :=
    defined.slot_staticField present
  cases defined with
  | file described _ _ _ _ _ _ linked =>
    obtain ⟨named, -, superclass, -⟩ := Link.parts_of_link linked
    obtain ⟨-, ⟨declared, listed, static, layout⟩, -⟩ := Link.members_of_link linked
    subst named superclass
    exact ⟨declared, .file described listed, layout, static, instanceSlot, staticSlot⟩
  | @array name component element object _ _ root _ rootDefined =>
    refine ⟨[], .array rfl, ?_, rfl, instanceSlot, staticSlot⟩
    change [] = object.instanceFields ++ Link.withSlots _ []
    rw [bare object rootDefined root]
    rfl

theorem map_layout (defined : Defines sources c) : c.layout.map Prod.snd = c.instanceFields := by
  rw [layout, List.map_reverse, defined.map_instanceFieldsInReach bare, List.reverse_reverse]

/-- What is in a slot of a class is there in all classes below. -/
theorem instanceFields_extends (defined : Defines sources d) (above : c ∈ d.upwards) :
    c.instanceFields <+: d.instanceFields := by
  rw [← defined.map_layout bare, ← (defined.superclass_defined above).map_layout bare]
  exact (layout_extends above).map _

/-- **A reference to a field of instances stands for one field** of all classes below the one that it
names, in the slot that it is resolved to. -/
theorem exists_standsFor (defined : Defines sources c)
    (found : symbol.findInstance c = .ok (.instanceField slot)) :
    ∃ owner ∈ c.upwards, ∃ field ∈ owner.ownInstanceFields, ∀ d, Defines sources d →
      c ∈ d.upwards → symbol.StandsFor slot owner field d := by
  unfold FieldSymbol.findInstance at found
  split at found
  · next field named =>
    split at found
    · next typed =>
      obtain rfl : field.slot = slot := by
        cases found
        rfl
      have name : field.name = symbol.name := by
        have sameName := List.find?_some named
        exact beq_iff_eq.mp sameName
      have member := List.mem_reverse.mp (List.mem_of_find?_eq_some named)
      obtain ⟨position, present⟩ := List.getElem?_of_mem member
      obtain rfl := defined.slot_instanceField present
      have paired := present
      rw [← defined.map_layout bare, List.getElem?_map, Option.map_eq_some_iff] at paired
      obtain ⟨⟨owner, _⟩, paired, rfl⟩ := paired
      obtain ⟨above, declared⟩ := declared_of_mem_layout (List.mem_of_getElem? paired)
      refine ⟨owner, above, _, declared, fun d below inherits => ?_⟩
      exact {
        layout := getElem?_of_prefix (layout_extends inherits) paired
        present := getElem?_of_prefix (below.instanceFields_extends bare inherits) present
        slot := rfl
        name
        type := typed }
    · cases found
  · cases found

end Loader.Defines

end JavaMachine
