import JavaMachine.Loader
import JavaMachine.Proofs.Descriptor
import JavaMachine.Proofs.Except

/-! # The classes that sources define

The sources give every name at most one class (`Loader.Defines.eq_of_name_eq`): the one whose file
they have under that name, linked to the classes that they define under the names in the file, or
the array class that the name spells. What a class needs by its file are the classes it is linked
to, so that no name with a class needs itself (`Loader.Defines.not_needs_itself`). -/

namespace JavaMachine

open Relation (ReflTransGen TransGen)

/-! ## Links between classes -/

namespace LinkedClass

/-- A class is linked to its superclass, to its interfaces and to the class of its elements. -/
inductive LinksTo (c : LinkedClass) : LinkedClass → Prop where
  | superclass {above : LinkedClass} (extended : c.superclass = some above) : LinksTo c above
  | interface {above : LinkedClass} (implemented : above ∈ c.interfaces) : LinksTo c above
  | element {inner : LinkedClass} (contained : c.element = some inner) : LinksTo c inner

theorem LinksTo.sizeOf_lt {c d : LinkedClass} (links : c.LinksTo d) : sizeOf d < sizeOf c := by
  obtain ⟨info, superclass, interfaces, element, table⟩ := c
  cases links with
  | superclass extended =>
    obtain rfl : superclass = some d := extended
    simp only [mk.sizeOf_spec, Option.some.sizeOf_spec]
    omega
  | interface implemented =>
    have smaller : sizeOf d < sizeOf interfaces := List.sizeOf_lt_of_mem implemented
    simp only [mk.sizeOf_spec]
    omega
  | element contained =>
    obtain rfl : element = some d := contained
    simp only [mk.sizeOf_spec, Option.some.sizeOf_spec]
    omega

theorem LinksTo.wellFounded : WellFounded fun above below : LinkedClass => below.LinksTo above :=
  Subrelation.wf (fun links => links.sizeOf_lt) (measure sizeOf).wf

theorem sizeOf_lt_of_transGen {c d : LinkedClass} (path : TransGen LinksTo c d) :
    sizeOf d < sizeOf c := by
  induction path with
  | single links => exact links.sizeOf_lt
  | tail _ links ih => exact links.sizeOf_lt.trans ih

end LinkedClass

namespace Link

/-- What linking takes over from the file and from what is linked. -/
theorem parts_of_link {file : ClassFile} {pool : Array Constant} {name : String}
    {superclass : Option LinkedClass} {interfaces : List LinkedClass} {linked : LinkedClass}
    (ended : link file pool name superclass interfaces = .ok linked) :
    linked.name = name ∧ linked.flags = file.flags ∧ linked.superclass = superclass ∧
      linked.interfaces = interfaces ∧ linked.element = none ∧ linked.component = none := by
  simp only [link, Except.bind_eq_ok_iff, Except.pure_eq_ok_iff] at ended
  obtain ⟨fields, -, methods, -, meanings, -, rfl⟩ := ended
  exact ⟨rfl, rfl, rfl, rfl, rfl, rfl⟩

/-- What linking makes of the members of the file. -/
theorem members_of_link {file : ClassFile} {pool : Array Constant} {name : String}
    {superclass : Option LinkedClass} {interfaces : List LinkedClass} {linked : LinkedClass}
    (ended : link file pool name superclass interfaces = .ok linked) :
    linked.info.pool = pool ∧
      (∃ fields, file.fields.mapM (field pool) = .ok fields ∧
        linked.staticFields = withSlots 0 (fields.filter (·.flags.isStatic)) ∧
        linked.instanceFields = (superclass.map LinkedClass.instanceFields).getD [] ++
          withSlots ((superclass.map LinkedClass.instanceFields).getD []).length
            (fields.filter (!·.flags.isStatic))) ∧
      ∃ methods, file.methods.mapM (method pool) = .ok methods ∧ linked.methods.toList = methods := by
  simp only [link, Except.bind_eq_ok_iff, Except.pure_eq_ok_iff, List.partition_eq_filter_filter]
    at ended
  obtain ⟨fields, linkedFields, methods, linkedMethods, meanings, -, rfl⟩ := ended
  exact ⟨rfl, ⟨fields, linkedFields, rfl, rfl⟩, methods, linkedMethods, List.toList_toArray⟩

end Link

namespace Loader

/-! ## Classes by name -/

/-- The file, with its resolved constants, that the sources have under a name that spells no
array. -/
structure Describes (sources : List ClassSource) (name : String) (file : ClassFile)
    (pool : Array Constant) : Prop where
  plain : name.startsWith "[" = false
  found : ∃ bytes, findClass name sources = .ok bytes ∧ ClassFile.read bytes = .ok file
  resolved : Constant.resolvePool file.pool = .ok pool

/-- The superclass that fits the index of one in a file: none for `java/lang/Object` only, and else
a class that can be extended. -/
def SuperclassFits (name : String) (pool : Array Constant) (index : UInt16) :
    Option LinkedClass → Prop
  | none => index = 0 ∧ name = ClassName.object
  | some above => index ≠ 0 ∧ Link.classNameAt pool index = .ok above.name ∧
      above.isInterface = false ∧ above.flags.isFinal = false

/-- The interface that fits an index. -/
def InterfaceFits (pool : Array Constant) (index : UInt16) (above : LinkedClass) : Prop :=
  Link.classNameAt pool index = .ok above.name ∧ above.isInterface = true

/-- The class of the elements that fits the type of the elements. -/
def ElementFits (component : FieldType) (element : Option LinkedClass) : Prop :=
  element.map LinkedClass.name = if component.isReference then some component.className else none

/-- The classes that the sources define. -/
inductive Defines (sources : List ClassSource) : LinkedClass → Prop where
  | file {name : String} {file : ClassFile} {pool : Array Constant}
      {superclass : Option LinkedClass} {interfaces : List LinkedClass} {c : LinkedClass}
      (described : Describes sources name file pool)
      (named : Link.classNameAt pool file.thisClass = .ok name)
      (superclassFits : SuperclassFits name pool file.superClass superclass)
      (interfacesFit : List.Forall₂ (InterfaceFits pool) file.interfaces interfaces)
      (rooted : file.flags.isInterface = true → ∀ above ∈ superclass, above.name = ClassName.object)
      (superclassDefined : ∀ above ∈ superclass, Defines sources above)
      (interfacesDefined : ∀ above ∈ interfaces, Defines sources above)
      (linked : Link.link file pool name superclass interfaces = .ok c) : Defines sources c
  | array {name : String} {component : FieldType} {element : Option LinkedClass}
      {object : LinkedClass} (spelled : FieldType.ofDescriptor? name = some (.array component))
      (elementFits : ElementFits component element) (root : object.name = ClassName.object)
      (elementDefined : ∀ inner ∈ element, Defines sources inner)
      (rootDefined : Defines sources object) :
      Defines sources (Link.arrayClass name component element object)

/-- The classes that the class of a name needs: those that its file names as superclass and as
interfaces; for an array, the class of the elements and `java/lang/Object`. -/
inductive Needs (sources : List ClassSource) : String → String → Prop where
  | superclass {name above : String} {file : ClassFile} {pool : Array Constant}
      (described : Describes sources name file pool) (present : file.superClass ≠ 0)
      (extended : Link.classNameAt pool file.superClass = .ok above) : Needs sources name above
  | interface {name above : String} {file : ClassFile} {pool : Array Constant} {index : UInt16}
      (described : Describes sources name file pool) (listed : index ∈ file.interfaces)
      (implemented : Link.classNameAt pool index = .ok above) : Needs sources name above
  | element {name : String} {component : FieldType}
      (spelled : FieldType.ofDescriptor? name = some (.array component))
      (reference : component.isReference = true) : Needs sources name component.className
  | root {name : String} {component : FieldType}
      (spelled : FieldType.ofDescriptor? name = some (.array component)) :
      Needs sources name ClassName.object

variable {sources : List ClassSource}

theorem Describes.unique {name : String} {file file' : ClassFile} {pool pool' : Array Constant}
    (first : Describes sources name file pool) (second : Describes sources name file' pool') :
    file = file' ∧ pool = pool' := by
  obtain ⟨bytes, found, read⟩ := first.found
  obtain ⟨bytes', found', read'⟩ := second.found
  obtain rfl : bytes = bytes' := Except.ok.inj (found.symm.trans found')
  obtain rfl : file = file' := Except.ok.inj (read.symm.trans read')
  exact ⟨rfl, Except.ok.inj (first.resolved.symm.trans second.resolved)⟩

theorem startsWith_of_spelled {name : String} {component : FieldType}
    (spelled : FieldType.ofDescriptor? name = some (.array component)) :
    name.startsWith "[" = true := by
  obtain ⟨-, rfl⟩ := FieldType.ofDescriptor?_eq_some_iff.mp spelled
  exact FieldType.startsWith_descriptor_array component

/-- No name has both a file and a spelling as an array. -/
theorem Describes.not_spelled {name : String} {file : ClassFile} {pool : Array Constant}
    {component : FieldType} (described : Describes sources name file pool) :
    FieldType.ofDescriptor? name ≠ some (.array component) := by
  intro spelled
  have starts := startsWith_of_spelled spelled
  rw [described.plain] at starts
  cases starts

theorem ElementFits.name_eq {component : FieldType} {inner : LinkedClass}
    (fits : ElementFits component (some inner)) :
    component.isReference = true ∧ inner.name = component.className := by
  unfold ElementFits at fits
  split at fits
  · next reference => exact ⟨reference, Option.some.inj fits⟩
  · cases fits

namespace Defines

/-! ## What a defined class is linked to -/

theorem linksTo_defined {c d : LinkedClass} (defined : Defines sources c) (links : c.LinksTo d) :
    Defines sources d := by
  cases defined with
  | file _ _ _ _ _ superclassDefined interfacesDefined linked =>
    obtain ⟨-, -, superclassEq, interfacesEq, elementEq, -⟩ := Link.parts_of_link linked
    cases links with
    | superclass extended => exact superclassDefined d (superclassEq.symm.trans extended)
    | interface implemented => exact interfacesDefined d (interfacesEq ▸ implemented)
    | element contained => cases elementEq.symm.trans contained
  | array _ _ _ elementDefined rootDefined =>
    cases links with
    | superclass extended =>
      obtain rfl := Option.some.inj extended
      exact rootDefined
    | interface implemented => cases implemented
    | element contained => exact elementDefined d contained

theorem transGen_defined {c d : LinkedClass} (defined : Defines sources c)
    (path : TransGen LinkedClass.LinksTo c d) : Defines sources d := by
  induction path with
  | single links => exact defined.linksTo_defined links
  | tail _ links ih => exact ih.linksTo_defined links

/-- A class is linked to nothing that its name does not need. -/
theorem needs_of_linksTo {c d : LinkedClass} (defined : Defines sources c)
    (links : c.LinksTo d) : Needs sources c.name d.name := by
  cases defined with
  | @file name file pool superclass interfaces _ described _ superclassFits interfacesFit _ _ _
      linked =>
    obtain ⟨nameEq, -, superclassEq, interfacesEq, elementEq, -⟩ := Link.parts_of_link linked
    rw [nameEq]
    cases links with
    | superclass extended =>
      rw [superclassEq.symm.trans extended] at superclassFits
      exact .superclass described superclassFits.1 superclassFits.2.1
    | interface implemented =>
      rw [interfacesEq] at implemented
      obtain ⟨position, inside, rfl⟩ := List.getElem_of_mem implemented
      have inside' : position < file.interfaces.length := interfacesFit.length_eq ▸ inside
      have fits := interfacesFit.get inside' inside
      exact .interface described (List.getElem_mem inside') fits.1
    | element contained => cases elementEq.symm.trans contained
  | array spelled elementFits root _ _ =>
    cases links with
    | superclass extended =>
      obtain rfl := Option.some.inj extended
      rw [root]
      exact .root spelled
    | interface implemented => cases implemented
    | element contained =>
      obtain rfl : _ = some d := contained
      obtain ⟨reference, named⟩ := elementFits.name_eq
      rw [named]
      exact .element spelled reference

/-- What the name of a class needs, the class is linked to. -/
theorem linksTo_of_needs {c : LinkedClass} {needed : String} (defined : Defines sources c)
    (needs : Needs sources c.name needed) : ∃ d, c.LinksTo d ∧ d.name = needed := by
  cases defined with
  | @file name file pool superclass interfaces _ described _ superclassFits interfacesFit _ _ _
      linked =>
    obtain ⟨nameEq, -, superclassEq, interfacesEq, -, -⟩ := Link.parts_of_link linked
    rw [nameEq] at needs
    cases needs with
    | superclass described' present extended =>
      obtain ⟨rfl, rfl⟩ := described.unique described'
      cases superclass with
      | none => exact absurd superclassFits.1 present
      | some above =>
        have sameName := superclassFits.2.1.symm.trans extended
        exact ⟨above, .superclass superclassEq, Except.ok.inj sameName⟩
    | interface described' listed implemented =>
      obtain ⟨rfl, rfl⟩ := described.unique described'
      obtain ⟨position, inside, rfl⟩ := List.getElem_of_mem listed
      have inside' : position < interfaces.length := interfacesFit.length_eq ▸ inside
      have fits := interfacesFit.get inside inside'
      refine ⟨interfaces[position], .interface ?_, Except.ok.inj (fits.1.symm.trans implemented)⟩
      rw [interfacesEq]
      exact List.getElem_mem inside'
    | element spelled | root spelled => exact absurd spelled described.not_spelled
  | @array name component element object spelled elementFits root _ _ =>
    change Needs sources name needed at needs
    cases needs with
    | superclass described | interface described => exact absurd spelled described.not_spelled
    | element spelled' reference =>
      obtain rfl := FieldType.array.inj (Option.some.inj (spelled.symm.trans spelled'))
      unfold ElementFits at elementFits
      rw [if_pos reference] at elementFits
      obtain ⟨inner, rfl, named⟩ := Option.map_eq_some_iff.mp elementFits
      exact ⟨inner, .element rfl, named⟩
    | root => exact ⟨object, .superclass rfl, root⟩

/-! ## One class for a name -/

/-- **A name has at most one class.** -/
theorem eq_of_name_eq {c d : LinkedClass} (first : Defines sources c) (second : Defines sources d)
    (same : c.name = d.name) : c = d := by
  induction first generalizing d with
  | @file name file pool superclass interfaces c described _ superclassFits interfacesFit _ _ _
      linked superclassUnique interfacesUnique =>
    obtain ⟨rfl, -⟩ := Link.parts_of_link linked
    cases second with
    | @file _ _ _ superclass' interfaces' _ described' _ superclassFits' interfacesFit' _
        superclassDefined interfacesDefined linked' =>
      obtain ⟨rfl, -⟩ := Link.parts_of_link linked'
      rw [← same] at described' superclassFits' linked'
      obtain ⟨rfl, rfl⟩ := described.unique described'
      have superclassEq : superclass = superclass' := by
        cases superclass with
        | none =>
          cases superclass' with
          | none => rfl
          | some above' => exact absurd superclassFits.1 superclassFits'.1
        | some above =>
          cases superclass' with
          | none => exact absurd superclassFits'.1 superclassFits.1
          | some above' =>
            have sameName := Except.ok.inj (superclassFits.2.1.symm.trans superclassFits'.2.1)
            exact congrArg some (superclassUnique above rfl (superclassDefined above' rfl) sameName)
      have interfacesEq : interfaces = interfaces' := by
        refine List.ext_getElem (interfacesFit.length_eq.symm.trans interfacesFit'.length_eq) ?_
        intro position inside inside'
        have listed : position < file.interfaces.length := interfacesFit.length_eq ▸ inside
        have named := (interfacesFit.get listed inside).1
        have named' := (interfacesFit'.get listed inside').1
        refine interfacesUnique _ (List.getElem_mem inside) ?_ ?_
        · exact interfacesDefined _ (List.getElem_mem inside')
        · exact Except.ok.inj (named.symm.trans named')
      rw [superclassEq, interfacesEq] at linked
      exact Except.ok.inj (linked.symm.trans linked')
    | array spelled =>
      rw [same] at described
      exact absurd spelled described.not_spelled
  | @array name component element object spelled elementFits root _ _ elementUnique rootUnique =>
    cases second with
    | file described _ _ _ _ _ _ linked' =>
      obtain ⟨rfl, -⟩ := Link.parts_of_link linked'
      rw [← same] at described
      exact absurd spelled described.not_spelled
    | @array name' component' element' object' spelled' elementFits' root' elementDefined
        rootDefined =>
      obtain rfl : name = name' := same
      obtain rfl := FieldType.array.inj (Option.some.inj (spelled.symm.trans spelled'))
      obtain rfl := rootUnique rootDefined (root.trans root'.symm)
      have elementEq : element = element' := by
        have sameNames := elementFits.trans elementFits'.symm
        cases element with
        | none =>
          cases element' with
          | none => rfl
          | some inner' => cases sameNames
        | some inner =>
          cases element' with
          | none => cases sameNames
          | some inner' =>
            refine congrArg some (elementUnique inner rfl (elementDefined inner' rfl) ?_)
            exact Option.some.inj sameNames
      rw [elementEq]

/-- Every path of needs from the name of a class is one of links from the class. -/
theorem transGen_of_needs {c : LinkedClass} {needed : String} (defined : Defines sources c)
    (path : TransGen (Needs sources) c.name needed) :
    ∃ d, TransGen LinkedClass.LinksTo c d ∧ d.name = needed := by
  induction path with
  | single needs =>
    obtain ⟨d, links, named⟩ := defined.linksTo_of_needs needs
    exact ⟨d, .single links, named⟩
  | tail _ needs ih =>
    obtain ⟨d, path, rfl⟩ := ih
    obtain ⟨e, links, named⟩ := (defined.transGen_defined path).linksTo_of_needs needs
    exact ⟨e, path.tail links, named⟩

/-- **A name that has a class does not need itself.** -/
theorem not_needs_itself {c : LinkedClass} (defined : Defines sources c) :
    ¬ TransGen (Needs sources) c.name c.name := by
  intro cycle
  obtain ⟨d, path, named⟩ := defined.transGen_of_needs cycle
  obtain rfl := (defined.transGen_defined path).eq_of_name_eq defined named
  exact absurd (LinkedClass.sizeOf_lt_of_transGen path) (Nat.lt_irrefl _)

/-! ## The root of the classes -/

theorem isArray_eq {c : LinkedClass} (defined : Defines sources c) :
    c.isArray = c.name.startsWith "[" := by
  cases defined with
  | file described _ _ _ _ _ _ linked =>
    obtain ⟨rfl, -, -, -, -, component⟩ := Link.parts_of_link linked
    rw [described.plain, LinkedClass.isArray, component, Option.isSome_none]
  | array spelled => exact (startsWith_of_spelled spelled).symm

theorem name_eq_object {c : LinkedClass} (defined : Defines sources c)
    (top : c.superclass = none) : c.name = ClassName.object := by
  cases defined with
  | file _ _ superclassFits _ _ _ _ linked =>
    obtain ⟨rfl, -, rfl, -⟩ := Link.parts_of_link linked
    rw [top] at superclassFits
    exact superclassFits.2
  | array => cases top

/-- The superclasses of a class end at `java/lang/Object`. -/
theorem exists_root {c : LinkedClass} (defined : Defines sources c) :
    ∃ top, ReflTransGen (fun below above => below.superclass = some above) c top ∧
      top.name = ClassName.object ∧ top.superclass = none := by
  induction size : sizeOf c using Nat.strongRecOn generalizing c with
  | ind bound ih =>
    cases above : c.superclass with
    | none => exact ⟨c, .refl, defined.name_eq_object above, above⟩
    | some parent =>
      have links : c.LinksTo parent := .superclass above
      obtain ⟨top, path, ended⟩ :=
        ih (sizeOf parent) (size ▸ links.sizeOf_lt) (defined.linksTo_defined links) rfl
      exact ⟨top, .head above path, ended⟩

/-- Where there is any class there is `java/lang/Object`. -/
theorem exists_object {c : LinkedClass} (defined : Defines sources c) :
    ∃ root, Defines sources root ∧ root.name = ClassName.object := by
  obtain ⟨top, path, named, -⟩ := defined.exists_root
  refine ⟨top, ?_, named⟩
  clear named
  induction path with
  | refl => exact defined
  | tail _ extended below => exact below.linksTo_defined (.superclass extended)

theorem superclass_eq_none_iff {c : LinkedClass} (defined : Defines sources c) :
    c.superclass = none ↔ c.name = ClassName.object := by
  refine ⟨defined.name_eq_object, fun named => ?_⟩
  obtain ⟨top, path, topNamed, topEnds⟩ := defined.exists_root
  rcases ReflTransGen.cases_head path with rfl | ⟨parent, extended, path⟩
  · exact topEnds
  · have upward : TransGen LinkedClass.LinksTo c top :=
      .head' (.superclass extended) (ReflTransGen.mono (fun _ _ => .superclass) _ _ path)
    obtain rfl := (defined.transGen_defined upward).eq_of_name_eq defined
      (topNamed.trans named.symm)
    exact topEnds

end Defines

end Loader

end JavaMachine
