import JavaMachine.Proofs.Class.History
import JavaMachine.Proofs.Class.FieldSearch

/-! # The classes of the throwables that the machine makes

The root class and the throwables are built in, whatever other sources there are
(`Loader.exists_throwing`). Nothing happens when one of them is initialized, the message of a throwable
is its only field (`Loader.Defines.throwing`), and one that the sources define can always be
loaded (`Loader.Sound.load_throwing`). -/

namespace JavaMachine

open Relation (ReflTransGen)

/-- The names of the built-in throwables, each after its superclass. -/
def Builtin.throwableNames : List String :=
  ClassName.throwable :: Builtin.throwables.map Prod.fst

/-- The names of the classes that are needed for the throwables that the machine makes. -/
def Builtin.throwing : List String :=
  ClassName.object :: Builtin.throwableNames

namespace Loader

/-! ## Classes without interfaces -/

section Chain

variable {sources : List ClassSource} {loaded : LoadedClasses} {c : LinkedClass}

/-- **A class that the sources define is loaded**, whatever else is, if neither the class nor one
above it has interfaces and there is enough depth for them all. -/
theorem Sound.resolve_chain (sound : Sound sources loaded) (defined : Defines sources c)
    (plain : ∀ d ∈ c.upwards, d.name.startsWith "[" = false ∧ d.interfaces = []) {depth : Nat}
    (deep : c.upwards.length ≤ depth) {loading : List String}
    (outside : ∀ d, ReflTransGen LinkedClass.LinksTo c d → d.name ∉ loading) :
    ∃ after, resolve sources depth loading c.name loaded = .ok c after := by
  induction defined generalizing depth loading with
  | @file name file pool superclass interfaces c described named superclassFits interfacesFit rooted
      superclassDefined interfacesDefined linked superclassIh interfacesIh =>
    have defined := Defines.file described named superclassFits interfacesFit rooted
      superclassDefined interfacesDefined linked
    obtain ⟨rfl, -, rfl, rfl, -, -⟩ := Link.parts_of_link linked
    have bare := (plain c (c.upwards_eq ▸ List.mem_cons_self)).2
    rw [LinkedClass.upwards_eq] at deep plain
    obtain ⟨depth, rfl⟩ := Nat.exists_eq_succ_of_ne_zero
      (Nat.ne_of_gt (Nat.lt_of_lt_of_le (Nat.zero_lt_succ _) deep))
    rw [resolve.eq_def]
    simp only [described.plain, Bool.false_eq_true, ↓reduceIte]
    cases found : loaded.lookup c.name with
    | some d =>
      obtain ⟨same, known⟩ := sound.known found
      obtain rfl := known.1.eq_of_name_eq defined same
      exact ⟨loaded, cached_of_found found⟩
    | none =>
      have above : ∃ after, Loader.superclass (resolve sources depth (c.name :: loading)) c.name pool
          file.superClass loaded = .ok c.superclass after := by
        cases extended : c.superclass with
        | none => exact ⟨loaded, superclass_eq_none (extended ▸ superclassFits)⟩
        | some above =>
          rw [extended] at superclassFits deep plain
          obtain ⟨after, ended⟩ := superclassIh above extended
            (fun d higher => plain d (List.mem_cons_of_mem _ higher)) (Nat.le_of_succ_le_succ deep)
            fun _ => defined.not_mem_cons outside (.superclass extended)
          exact ⟨after, superclass_eq_some superclassFits ended⟩
      obtain ⟨after, superclassGiven⟩ := above
      have none : file.interfaces = [] :=
        List.eq_nil_of_length_eq_zero (interfacesFit.length_eq.trans (congrArg List.length bare))
      have interfacesGiven : file.interfaces.mapM
          (interface (resolve sources depth (c.name :: loading)) c.name pool) after =
            .ok c.interfaces after := by
        rw [none, bare]
        rfl
      exact ⟨_, cached_of_ok found (outside c .refl)
        (define_eq_ok_of_links described named rooted linked superclassGiven interfacesGiven)⟩
  | @array name component element object spelled =>
    have written := (plain _ (LinkedClass.upwards_eq _ ▸ List.mem_cons_self)).1
    cases (startsWith_of_spelled spelled).symm.trans written

end Chain

/-! ## Built-in throwables -/

theorem findClass_append {name : String} {sources : List ClassSource} {bytes : List UInt8}
    (found : findClass name sources = .ok bytes) (rest : List ClassSource) :
    findClass name (sources ++ rest) = .ok bytes := by
  induction sources with
  | nil => cases found
  | cons source others ih =>
    rw [findClass, Except.bind_eq_ok_iff] at found
    obtain ⟨result, held, found⟩ := found
    rw [List.cons_append, findClass, held]
    cases result with
    | some bytes' => exact found
    | none => exact ih found

/-- What the sources define, they still define with others after them. -/
theorem Defines.append {sources : List ClassSource} {c : LinkedClass} (defined : Defines sources c)
    (rest : List ClassSource) : Defines (sources ++ rest) c := by
  induction defined with
  | file described named superclassFits interfacesFit rooted _ _ linked superclassIh interfacesIh =>
    obtain ⟨bytes, found, read⟩ := described.found
    exact .file ⟨described.plain, ⟨bytes, findClass_append found rest, read⟩, described.resolved⟩
      named superclassFits interfacesFit rooted superclassIh interfacesIh linked
  | array spelled elementFits root _ _ elementIh rootIh =>
    exact .array spelled elementFits root elementIh rootIh

/-- What is loaded once some classes have been asked for, one after the other. -/
def loadAll (sources : List ClassSource) : List String → LoadedClasses → LoadedClasses
  | [], loaded => loaded
  | name :: rest, loaded =>
    match load sources name loaded with
    | .ok _ after | .error _ after => loadAll sources rest after

theorem Reachable.loadAll {sources : List ClassSource} {loaded : LoadedClasses}
    (reachable : Reachable sources loaded) (names : List String) :
    Reachable sources (loadAll sources names loaded) := by
  induction names generalizing loaded with
  | nil => exact reachable
  | cons name rest ih =>
    rw [Loader.loadAll]
    split
    · next ended => exact ih (.loaded reachable ended)
    · next ended => exact ih (.failed reachable ended)

/-- The classes of the throwables that the machine makes, loaded from the built-in classes alone. -/
@[irreducible] def throwingClasses : LoadedClasses :=
  loadAll [builtinClasses] Builtin.throwing []

theorem sound_throwingClasses : Sound [builtinClasses] throwingClasses := by
  unfold throwingClasses
  exact (Reachable.nothing.loadAll _).sound

/-- What the root class and the classes of throwables have in common: they are no arrays, extend at
most six classes and no interfaces, and nothing happens when they are initialized, since they have
neither static fields nor an initializer. The only field that their instances can have is that of the
message, which the root class does not have. -/
def isBare (c : LinkedClass) : Bool :=
  !c.name.startsWith "[" && c.interfaces.isEmpty && c.staticFields.isEmpty &&
    (c.declaredMethod? MemberName.staticInitializer "()V").isNone && c.upwards.length ≤ 6 &&
    (c.name == ClassName.object ||
      c.instanceFields.map (fun field => (field.name, field.slot)) == [(MemberName.detailMessage, 0)])

theorem throwingClasses_facts :
    throwingClasses.map Prod.fst = Builtin.throwing.reverse ∧
      (throwingClasses.all fun entry => isBare entry.2) = true := by
  decide +kernel

section Throwing

variable {builtin : ClassSource} {c d : LinkedClass} {name : String}

/-- What is known of a class with the name of the root class or of a built-in throwable. -/
structure Throwing (c : LinkedClass) : Prop where
  named : c.name ∈ Builtin.throwing
  bare : isBare c = true

theorem exists_loaded (member : name ∈ Builtin.throwing) :
    ∃ c, throwingClasses.lookup name = some c := by
  have listed : name ∈ throwingClasses.map Prod.fst := by
    rw [throwingClasses_facts.1]
    exact List.mem_reverse.mpr member
  cases found : throwingClasses.lookup name with
  | some c => exact ⟨c, rfl⟩
  | none =>
    obtain ⟨entry, among, rfl⟩ := List.mem_map.mp listed
    exact absurd rfl (bne_iff_ne.mp (List.lookup_eq_none_iff.mp found entry among))

theorem throwing_of_lookup (found : throwingClasses.lookup name = some c) : Throwing c := by
  obtain ⟨before, rest, split, -⟩ := List.lookup_eq_some_iff.mp found
  have among : (name, c) ∈ throwingClasses := split ▸ List.mem_append_right before List.mem_cons_self
  obtain ⟨names, bare⟩ := throwingClasses_facts
  obtain ⟨rfl, -⟩ := sound_throwingClasses.known found
  have listed : c.name ∈ throwingClasses.map Prod.fst := List.mem_map_of_mem among
  rw [names] at listed
  exact ⟨List.mem_reverse.mp listed, List.all_eq_true.mp bare (c.name, c) among⟩

/-- **The classes of the throwables that the machine makes are there**, whatever other sources there
are. -/
theorem exists_throwing (built : Builtin.source = .ok builtin) (rest : List ClassSource)
    (member : name ∈ Builtin.throwing) :
    ∃ c, Defines (builtin :: rest) c ∧ c.name = name ∧ throwingClasses.lookup name = some c := by
  obtain ⟨c, found⟩ := exists_loaded member
  obtain ⟨rfl, defined, -⟩ := sound_throwingClasses.known found
  obtain rfl : builtinClasses = builtin := Except.ok.inj (source_eq_builtinClasses.symm.trans built)
  exact ⟨c, defined.append rest, rfl, found⟩

theorem Defines.throwing {rest : List ClassSource} (built : Builtin.source = .ok builtin)
    (defined : Defines (builtin :: rest) c) (member : c.name ∈ Builtin.throwing)
    (above : d ∈ c.upwards) : Throwing d := by
  obtain ⟨c', defined', same, found⟩ := exists_throwing built rest member
  obtain rfl := defined'.eq_of_name_eq defined same
  suffices loaded : ∀ c, throwingClasses.lookup c.name = some c → d ∈ c.upwards →
      throwingClasses.lookup d.name = some d from
    throwing_of_lookup (loaded c' found above)
  intro c
  induction c using LinkedClass.LinksTo.wellFounded.induction with
  | _ c ih =>
    intro found above
    rw [LinkedClass.upwards_eq, List.mem_cons] at above
    rcases above with rfl | above
    · exact found
    · cases extended : c.superclass with
      | none =>
        rw [extended] at above
        cases above
      | some inherited =>
        rw [extended] at above
        have links : c.LinksTo inherited := .superclass extended
        exact ih inherited links ((sound_throwingClasses _ _ found).2.2 _ links) above

/-- A class of a throwable that the machine makes, or one above it, is no array and extends no
interfaces. -/
theorem Throwing.plain (throwing : Throwing c) :
    c.name.startsWith "[" = false ∧ c.interfaces = [] := by
  have bare := throwing.bare
  simp only [isBare, Bool.and_eq_true, Bool.not_eq_true', List.isEmpty_iff] at bare
  exact ⟨bare.1.1.1.1.1, bare.1.1.1.1.2⟩

theorem Throwing.length_upwards (throwing : Throwing c) : c.upwards.length ≤ 6 := by
  have bare := throwing.bare
  simp only [isBare, Bool.and_eq_true, decide_eq_true_eq] at bare
  exact bare.1.2

/-- Nothing happens when it is initialized. -/
theorem Throwing.inert (throwing : Throwing c) : c.staticFields = [] ∧
    c.declaredMethod? MemberName.staticInitializer "()V" = none := by
  have bare := throwing.bare
  simp only [isBare, Bool.and_eq_true, List.isEmpty_iff, Option.isNone_iff_eq_none] at bare
  exact ⟨bare.1.1.1.2, bare.1.1.2⟩

/-- A throwable has one field, that of its message. -/
theorem Throwing.exists_message (throwing : Throwing c) (below : c.name ≠ ClassName.object) :
    ∃ message : Field, c.instanceFields = [message] ∧
      c.instanceField? MemberName.detailMessage = some message ∧ message.slot = 0 := by
  have bare := throwing.bare
  simp only [isBare, Bool.and_eq_true, Bool.or_eq_true, beq_iff_eq, below, false_or] at bare
  obtain ⟨message, others, fields, same, nothing⟩ := List.map_eq_cons_iff.mp bare.2
  obtain rfl := List.map_eq_nil_iff.mp nothing
  obtain ⟨named, slot⟩ := Prod.mk.inj same
  refine ⟨message, fields, ?_, slot⟩
  simp only [LinkedClass.instanceField?, fields, List.reverse_singleton, List.find?_singleton, named,
    beq_self_eq_true, if_true]

theorem six_le_depthBound (built : Builtin.source = .ok builtin) (rest : List ClassSource) :
    6 ≤ depthBound (builtin :: rest) := by
  have some : 1 ≤ builtinClasses.size := by decide +kernel
  obtain rfl : builtinClasses = builtin := Except.ok.inj (source_eq_builtinClasses.symm.trans built)
  rw [depthBound, List.foldr_cons]
  omega

/-- **The classes of the throwables that the machine makes can always be loaded**, whatever else is
loaded and whatever other sources there are. -/
theorem Sound.load_throwing {rest : List ClassSource} {loaded : LoadedClasses}
    (built : Builtin.source = .ok builtin) (sound : Sound (builtin :: rest) loaded)
    (member : name ∈ Builtin.throwing) :
    ∃ c after, Defines (builtin :: rest) c ∧ c.name = name ∧
      load (builtin :: rest) name loaded = .ok c after := by
  obtain ⟨c, defined, rfl, -⟩ := exists_throwing built rest member
  have throwing (d : LinkedClass) (above : d ∈ c.upwards) : Throwing d :=
    defined.throwing built member above
  have self : c ∈ c.upwards := c.upwards_eq ▸ List.mem_cons_self
  obtain ⟨after, ended⟩ := sound.resolve_chain defined (fun d above => (throwing d above).plain)
    ((throwing c self).length_upwards.trans (six_le_depthBound built rest)) fun _ _ => List.not_mem_nil
  exact ⟨c, after, defined, rfl, ended⟩

end Throwing

end Loader

end JavaMachine
