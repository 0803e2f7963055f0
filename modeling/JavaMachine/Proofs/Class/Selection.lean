import JavaMachine.Proofs.Class.Coherence

/-! # The method that a call selects on the class of its receiver

A call names a method of a class or an interface and runs the one that its key selects on the class
of the receiver. Where nothing on the way from that class up to the method hides it, a method is
selected, and it is one of objects, open to every caller, with the same name and the same descriptor
(`Loader.Defines.selects_of_isA`). -/

namespace JavaMachine

open Relation (ReflTransGen)

namespace Method

/-- A method that runs where another one is called. -/
structure StandsFor (own called : Method) : Prop where
  name_eq : own.name = called.name
  descriptorText_eq : own.descriptorText = called.descriptorText
  notStatic : own.isStatic = false
  notPrivate : own.isPrivate = false

/-- A method that can be called on the objects of the classes below its own. -/
structure IsVirtual (method : Method) : Prop where
  inherited : method.IsInherited
  notStatic : method.isStatic = false

theorem IsVirtual.standsFor {method : Method} (virtual : method.IsVirtual) :
    method.StandsFor method :=
  ⟨rfl, rfl, virtual.notStatic, virtual.inherited.1⟩

theorem StandsFor.isInherited {own called : Method} (stands : own.StandsFor called)
    (virtual : called.IsVirtual) : own.IsInherited := by
  obtain ⟨-, notConstructor, notInitializer⟩ := virtual.inherited
  rw [← stands.name_eq] at notConstructor notInitializer
  exact ⟨stands.notPrivate, notConstructor, notInitializer⟩

theorem StandsFor.isOffered {own called : Method} (stands : own.StandsFor called)
    (virtual : called.IsVirtual) : own.IsOffered :=
  ⟨stands.notStatic, stands.notPrivate, (stands.isInherited virtual).2.2⟩

/-- The arguments of one method fit another one that stands for it. -/
theorem StandsFor.argumentSlots_eq {own called : Method} (stands : own.StandsFor called)
    (onObjects : called.isStatic = false)
    (ownSpells : MethodDescriptor.ofDescriptor? own.descriptorText = some own.descriptor)
    (calledSpells : MethodDescriptor.ofDescriptor? called.descriptorText = some called.descriptor) :
    own.argumentSlots = called.argumentSlots := by
  rw [stands.descriptorText_eq, calledSpells] at ownSpells
  rw [argumentSlots, argumentSlots, ← Option.some.inj ownSpells, stands.notStatic, onObjects]

end Method

namespace Link

/-- The descriptor of a method is the one that its text spells. -/
theorem spells_of_method {pool : Array Constant} {entry : MemberEntry} {linked : Method}
    (ended : method pool entry = .ok linked) :
    MethodDescriptor.ofDescriptor? linked.descriptorText = some linked.descriptor := by
  simp only [method, Except.bind_eq_ok_iff] at ended
  obtain ⟨name, -, descriptorText, -, ended⟩ := ended
  split at ended
  · cases ended
  · next descriptor spelled =>
    obtain ⟨code, -, ended⟩ := Except.bind_eq_ok_iff.mp ended
    split at ended
    · cases ended
    split at ended
    · cases ended
    rw [Except.pure_eq_ok_iff] at ended
    rw [← ended]
    exact spelled

theorem spells_of_link {file : ClassFile} {pool : Array Constant} {name : String}
    {superclass : Option LinkedClass} {interfaces : List LinkedClass} {linked : LinkedClass}
    (ended : link file pool name superclass interfaces = .ok linked) {index : Nat}
    {found : Method} (present : linked.method? index = some found) :
    MethodDescriptor.ofDescriptor? found.descriptorText = some found.descriptor := by
  simp only [link, Except.bind_eq_ok_iff, Except.pure_eq_ok_iff] at ended
  obtain ⟨fields, -, methods, endedToo, meanings, -, rfl⟩ := ended
  have member : found ∈ methods := List.mem_toArray.mp (Array.mem_of_getElem? present)
  obtain ⟨entry, -, linked⟩ := Except.exists_of_mem_mapM endedToo member
  exact spells_of_method linked

end Link

namespace LinkedClass

/-! ## Declared and selected methods -/

/-- The last method that a class declares with a key. -/
def Declares (c : LinkedClass) (key : String) (method : Method) : Prop :=
  ∃ index, lastDeclared? c.methods key = some index ∧ c.method? index = some method

/-- The method that a key selects on a class, with its owner. -/
def Selects (c : LinkedClass) (key : String) (owner : LinkedClass) (method : Method) : Prop :=
  ∃ index, c.findMethod? key = some (owner, index) ∧ owner.method? index = some method

section Selects

variable {c owner : LinkedClass} {key : String} {method : Method}

theorem Declares.unique {other : Method} (first : c.Declares key method)
    (second : c.Declares key other) : method = other := by
  obtain ⟨index, last, present⟩ := first
  obtain ⟨index', last', present'⟩ := second
  obtain rfl : index = index' := Option.some.inj (last.symm.trans last')
  exact Option.some.inj (present.symm.trans present')

theorem Declares.key_eq (declared : c.Declares key method) : method.key = key := by
  obtain ⟨index, last, present⟩ := declared
  obtain ⟨inside, keyed⟩ := lastDeclared?_eq_some last
  obtain ⟨_, rfl⟩ := Array.getElem?_eq_some_iff.mp present
  exact keyed

theorem lastDeclared?_eq_none (undeclared : ∀ method, ¬ c.Declares key method) :
    lastDeclared? c.methods key = none := by
  by_contra some
  obtain ⟨index, last⟩ := Option.ne_none_iff_exists'.mp some
  obtain ⟨inside, -⟩ := lastDeclared?_eq_some last
  exact undeclared _ ⟨index, last, Array.getElem?_eq_getElem inside⟩

theorem finds_iff {passes : Method → Prop} [DecidablePred passes] {index : Nat} :
    finds (decide <| passes ·) (owner, index) = true ↔
      ∃ method, owner.method? index = some method ∧ passes method := by
  simp only [finds, Option.any_eq_true, decide_eq_true_eq]

theorem TablesBuilt.findMethod?_eq_or (built : c.TablesBuilt) :
    c.findMethod? key = ((lastDeclared? c.methods key).map fun index => (c, index)).or
      ((c.superclass.bind fun above =>
          (above.findMethod? key).filter (finds (decide ·.IsInherited))).or
        (c.interfaces.findSome? fun above =>
          (above.findMethod? key).filter (finds (decide ·.IsOffered)))) := by
  cases built with
  | mk superclassBuilt interfacesBuilt _ => exact findMethod?_eq superclassBuilt interfacesBuilt

/-- A selected method is declared by the class itself, or handed down by its superclass, or offered
by one of its interfaces. -/
theorem TablesBuilt.selects_cases (built : c.TablesBuilt) (selects : c.Selects key owner method) :
    (owner = c ∧ c.Declares key method) ∨
      (∀ own, ¬ c.Declares key own) ∧
        ((∃ above, c.superclass = some above ∧ above.Selects key owner method ∧
            method.IsInherited) ∨
          ∃ above ∈ c.interfaces, above.Selects key owner method ∧ method.IsOffered) := by
  obtain ⟨index, found, present⟩ := selects
  rw [built.findMethod?_eq_or, Option.or_eq_some_iff, Option.or_eq_some_iff] at found
  rcases found with declared | ⟨undeclared, above⟩
  · obtain ⟨index, last, ⟨⟩⟩ := Option.map_eq_some_iff.mp declared
    exact .inl ⟨rfl, index, last, present⟩
  · refine .inr ⟨?_, ?_⟩
    · rintro own ⟨index, last, -⟩
      rw [last] at undeclared
      cases undeclared
    · rcases above with inherited | ⟨-, offered⟩
      · obtain ⟨above, extended, kept⟩ := Option.bind_eq_some_iff.mp inherited
        obtain ⟨found, passes⟩ := Option.filter_eq_some_iff.mp kept
        obtain ⟨_, present', passes⟩ := finds_iff.mp passes
        obtain rfl := Option.some.inj (present.symm.trans present')
        exact .inl ⟨above, extended, ⟨index, found, present⟩, passes⟩
      · obtain ⟨above, implemented, kept⟩ := List.exists_of_findSome?_eq_some offered
        obtain ⟨found, passes⟩ := Option.filter_eq_some_iff.mp kept
        obtain ⟨_, present', passes⟩ := finds_iff.mp passes
        obtain rfl := Option.some.inj (present.symm.trans present')
        exact .inr ⟨above, implemented, ⟨index, found, present⟩, passes⟩

theorem TablesBuilt.findMethod?_of_declared (built : c.TablesBuilt) {index : Nat}
    (last : lastDeclared? c.methods key = some index) : c.findMethod? key = some (c, index) := by
  rw [built.findMethod?_eq_or, last]
  rfl

theorem Declares.selects (declared : c.Declares key method) (built : c.TablesBuilt) :
    c.Selects key c method := by
  obtain ⟨index, last, present⟩ := declared
  exact ⟨index, built.findMethod?_of_declared last, present⟩

theorem Selects.of_superclass {above : LinkedClass} (selects : above.Selects key owner method)
    (built : c.TablesBuilt) (undeclared : ∀ own, ¬ c.Declares key own)
    (extended : c.superclass = some above) (inherited : method.IsInherited) :
    c.Selects key owner method := by
  obtain ⟨index, found, present⟩ := selects
  have passes : finds (decide ·.IsInherited) (owner, index) = true :=
    finds_iff.mpr ⟨method, present, inherited⟩
  refine ⟨index, ?_, present⟩
  rw [built.findMethod?_eq_or, lastDeclared?_eq_none undeclared, extended, Option.bind_some, found,
    Option.filter_some_pos passes]
  rfl

/-- A class selects some method for what an interface of it offers. -/
theorem Selects.of_interface {above : LinkedClass} (selects : above.Selects key owner method)
    (built : c.TablesBuilt) (implemented : above ∈ c.interfaces) (offered : method.IsOffered) :
    ∃ owner method, c.Selects key owner method := by
  obtain ⟨index, found, present⟩ := selects
  have passes : finds (decide ·.IsOffered) (owner, index) = true :=
    finds_iff.mpr ⟨method, present, offered⟩
  have some : (c.interfaces.findSome? fun above =>
      (above.findMethod? key).filter (finds (decide ·.IsOffered))).isSome = true := by
    rw [List.findSome?_isSome_iff]
    refine ⟨above, implemented, ?_⟩
    rw [found, Option.filter_some_pos passes]
    rfl
  have any : (c.findMethod? key).isSome = true := by
    rw [built.findMethod?_eq_or]
    simp only [Option.isSome_or, some, Bool.or_true]
  obtain ⟨⟨owner, index⟩, found⟩ := Option.isSome_iff_exists.mp any
  obtain ⟨inside, -⟩ := built.key_of_findMethod? found
  exact ⟨owner, _, index, found, Array.getElem?_eq_getElem inside⟩

end Selects

/-! ## The way up from the class of a receiver -/

/-- A class is another one if it is that very class, extends it or implements it. -/
def IsA (c above : LinkedClass) : Prop :=
  ∃ ancestor, ReflTransGen (fun below above => below.superclass = some above) c ancestor ∧
    ReflTransGen (fun below above => above ∈ below.interfaces) ancestor above

/-- A step up on the way to a class: to the superclass, or to an interface if an interface is looked
for. The way ends at the class. -/
def StepsTo (target c above : LinkedClass) : Prop :=
  c ≠ target ∧ (c.superclass = some above ∨ target.isInterface = true ∧ above ∈ c.interfaces)

/-- What a class declares under the key of a method of another class does not hide that method: it
has the same name and descriptor, and whatever inherits the method gives it to all callers and on
objects. -/
structure Spares (target : LinkedClass) (called : Method) (c : LinkedClass) (own : Method) :
    Prop where
  name_eq : own.name = called.name
  descriptorText_eq : own.descriptorText = called.descriptorText
  shared : own.isPrivate = true → ¬ c.IsA target
  /-- Static methods are handed down by classes, but not offered by interfaces. -/
  onObjects : own.isStatic = true → c.isInterface = true ∧ ¬ c.IsA target

/-- Nothing on the way up from a class to another one hides a method of that one. -/
def Exposes (c target : LinkedClass) (called : Method) : Prop :=
  ∀ passed own, ReflTransGen (StepsTo target) c passed → passed ≠ target →
    passed.Declares called.key own → Spares target called passed own

section Way

variable {c target above : LinkedClass} {called own : Method}

theorem IsA.refl (c : LinkedClass) : c.IsA c :=
  ⟨c, .refl, .refl⟩

/-- A class that is another one is so by itself, by its superclass or by one of its interfaces. -/
theorem IsA.cases_head (isA : c.IsA target) : c = target ∨
    (∃ above, c.superclass = some above ∧ above.IsA target) ∨
      ∃ above ∈ c.interfaces,
        ReflTransGen (fun below above => above ∈ below.interfaces) above target := by
  obtain ⟨ancestor, extended, implemented⟩ := isA
  rcases ReflTransGen.cases_head extended with rfl | ⟨above, first, rest⟩
  · rcases ReflTransGen.cases_head implemented with same | ⟨above, first, rest⟩
    · exact .inl same
    · exact .inr (.inr ⟨above, first, rest⟩)
  · exact .inr (.inl ⟨above, first, ancestor, rest, implemented⟩)

theorem Exposes.of_step (exposes : c.Exposes target called) (step : StepsTo target c above) :
    above.Exposes target called :=
  fun passed own way => exposes passed own (way.head step)

theorem Exposes.spares (exposes : c.Exposes target called) (other : c ≠ target)
    (declared : c.Declares called.key own) : Spares target called c own :=
  exposes c own .refl other declared

theorem Spares.standsFor (spares : Spares target called c own) (isA : c.IsA target) :
    own.StandsFor called where
  name_eq := spares.name_eq
  descriptorText_eq := spares.descriptorText_eq
  notStatic := by
    rw [← Bool.not_eq_true]
    exact fun static => (spares.onObjects static).2 isA
  notPrivate := by
    rw [← Bool.not_eq_true]
    exact fun private' => spares.shared private' isA

end Way

end LinkedClass

namespace Loader

open LinkedClass

variable {sources : List ClassSource} {c target owner : LinkedClass} {called own : Method}

namespace Defines

theorem tablesBuilt (defined : Defines sources c) : c.TablesBuilt := by
  induction defined with
  | file _ _ _ _ _ _ _ linked superclassBuilt interfacesBuilt =>
    exact Link.tablesBuilt_of_link superclassBuilt interfacesBuilt linked
  | array _ _ _ _ _ elementBuilt rootBuilt =>
    exact Link.tablesBuilt_arrayClass elementBuilt rootBuilt

theorem spells (defined : Defines sources c) {index : Nat}
    (present : c.method? index = some own) :
    MethodDescriptor.ofDescriptor? own.descriptorText = some own.descriptor := by
  cases defined with
  | file _ _ _ _ _ _ _ linked => exact Link.spells_of_link linked present
  | array => cases present

/-- The owner of a selected method declares it. -/
theorem declares_of_selects {key : String} (defined : Defines sources c)
    (selects : c.Selects key owner own) : Defines sources owner ∧ owner.Declares key own := by
  induction c using LinksTo.wellFounded.induction with
  | _ c ih =>
    rcases defined.tablesBuilt.selects_cases selects with
      ⟨rfl, declared⟩ | ⟨-, ⟨above, extended, selects, -⟩ | ⟨above, implemented, selects, -⟩⟩
    · exact ⟨defined, declared⟩
    · have links : c.LinksTo above := .superclass extended
      exact ih above links (defined.linksTo_defined links) selects
    · have links : c.LinksTo above := .interface implemented
      exact ih above links (defined.linksTo_defined links) selects

/-- What is selected under the key of a method that nothing hides has its name and descriptor. -/
theorem name_eq_of_selects (defined : Defines sources c) (kind : target.isInterface = true)
    (declared : target.Declares called.key called) (exposes : c.Exposes target called)
    (selects : c.Selects called.key owner own) :
    own.name = called.name ∧ own.descriptorText = called.descriptorText := by
  induction c using LinksTo.wellFounded.induction with
  | _ c ih =>
    by_cases other : c = target
    · subst other
      obtain ⟨index, found, present⟩ := selects
      obtain ⟨index', found', present'⟩ := declared.selects defined.tablesBuilt
      obtain ⟨rfl, rfl⟩ := Prod.mk.inj (Option.some.inj (found.symm.trans found'))
      obtain rfl := Option.some.inj (present.symm.trans present')
      exact ⟨rfl, rfl⟩
    rcases defined.tablesBuilt.selects_cases selects with
      ⟨rfl, declared⟩ | ⟨-, ⟨above, extended, selects, -⟩ | ⟨above, implemented, selects, -⟩⟩
    · have spares := exposes.spares other declared
      exact ⟨spares.name_eq, spares.descriptorText_eq⟩
    · have links : c.LinksTo above := .superclass extended
      exact ih above links (defined.linksTo_defined links)
        (exposes.of_step ⟨other, .inl extended⟩) selects
    · have links : c.LinksTo above := .interface implemented
      exact ih above links (defined.linksTo_defined links)
        (exposes.of_step ⟨other, .inr ⟨kind, implemented⟩⟩) selects

end Defines

section Kinds

variable (rootExtensible : ∀ root, Defines sources root → root.name = ClassName.object →
  root.isInterface = false ∧ root.flags.isFinal = false)

include rootExtensible

namespace Defines

/-- A class selects no static method under the key of a method of an interface that nothing
hides. -/
theorem notStatic_of_selects (defined : Defines sources c) (kind : target.isInterface = true)
    (plain : c.isInterface = false) (exposes : c.Exposes target called)
    (selects : c.Selects called.key owner own) : own.isStatic = false := by
  induction c using LinksTo.wellFounded.induction with
  | _ c ih =>
    have other : c ≠ target := by
      rintro rfl
      rw [plain] at kind
      cases kind
    rcases defined.tablesBuilt.selects_cases selects with
      ⟨rfl, declared⟩ | ⟨-, ⟨above, extended, selects, -⟩ | ⟨above, implemented, -, offered⟩⟩
    · rw [← Bool.not_eq_true]
      intro static
      have kind := ((exposes.spares other declared).onObjects static).1
      rw [plain] at kind
      cases kind
    · have links : c.LinksTo above := .superclass extended
      exact ih above links (defined.linksTo_defined links)
        ((defined.kinds rootExtensible).1 above extended).1
        (exposes.of_step ⟨other, .inl extended⟩) selects
    · exact offered.1

/-- Interfaces only have interfaces above them. -/
theorem isInterface_of_path {above : LinkedClass} (defined : Defines sources c)
    (kind : c.isInterface = true)
    (path : ReflTransGen (fun below above => above ∈ below.interfaces) c above) :
    above.isInterface = true := by
  suffices Defines sources above ∧ above.isInterface = true from this.2
  induction path with
  | refl => exact ⟨defined, kind⟩
  | tail _ implemented ih =>
    exact ⟨ih.1.linksTo_defined (.interface implemented),
      (ih.1.kinds rootExtensible).2.1 _ implemented⟩

/-- **A class selects a method that stands for the one that is called**, if it is the class of that
method, extends it or implements it, and nothing on the way hides the method. -/
theorem selects_of_isA (defined : Defines sources c) (declared : target.Declares called.key called)
    (virtual : called.IsVirtual) (exposes : c.Exposes target called) (isA : c.IsA target) :
    ∃ owner own, c.Selects called.key owner own ∧ own.StandsFor called := by
  induction c using LinksTo.wellFounded.induction with
  | _ c ih =>
    have built := defined.tablesBuilt
    rcases eq_or_ne c target with rfl | other
    · exact ⟨c, called, declared.selects built, virtual.standsFor⟩
    by_cases hidden : ∃ own, c.Declares called.key own
    · obtain ⟨own, overriding⟩ := hidden
      exact ⟨c, own, overriding.selects built, (exposes.spares other overriding).standsFor isA⟩
    have undeclared := not_exists.mp hidden
    rcases isA.cases_head with same | ⟨above, extended, isA⟩ | ⟨above, implemented, path⟩
    · exact absurd same other
    · have links : c.LinksTo above := .superclass extended
      obtain ⟨owner, own, selects, stands⟩ := ih above links (defined.linksTo_defined links)
        (exposes.of_step ⟨other, .inl extended⟩) isA
      exact ⟨owner, own, selects.of_superclass built undeclared extended
        (stands.isInherited virtual), stands⟩
    · have links : c.LinksTo above := .interface implemented
      have aboveDefined := defined.linksTo_defined links
      have kind : target.isInterface = true := aboveDefined.isInterface_of_path rootExtensible
        ((defined.kinds rootExtensible).2.1 above implemented) path
      obtain ⟨owner, own, offered, stands⟩ := ih above links aboveDefined
        (exposes.of_step ⟨other, .inr ⟨kind, implemented⟩⟩) ⟨above, .refl, path⟩
      -- The superclass or an interface further ahead may be the one that the method comes from.
      obtain ⟨owner, own, selects⟩ := offered.of_interface built implemented
        (stands.isOffered virtual)
      obtain ⟨name, descriptorText⟩ :=
        defined.name_eq_of_selects kind declared exposes selects
      refine ⟨owner, own, selects, name, descriptorText, ?_, ?_⟩
      · rcases built.selects_cases selects with
          ⟨rfl, declared⟩ | ⟨-, ⟨above, extended, selects, -⟩ | ⟨above, -, -, offered⟩⟩
        · exact absurd declared (undeclared own)
        · exact (defined.linksTo_defined (.superclass extended)).notStatic_of_selects
            rootExtensible kind ((defined.kinds rootExtensible).1 above extended).1
            (exposes.of_step ⟨other, .inl extended⟩) selects
        · exact offered.1
      · rcases built.selects_cases selects with
          ⟨rfl, declared⟩ | ⟨-, ⟨above, -, -, inherited⟩ | ⟨above, -, -, offered⟩⟩
        · exact absurd declared (undeclared own)
        · exact inherited.1
        · exact offered.2.1

end Defines

end Kinds

end Loader

end JavaMachine
