import JavaMachine.Proofs.Machine.Sound

/-! # Links

What a constant of a class stands for is noted at its first use, and later uses go by the note: the
class that it names, and the field or the method of that class. In a sound machine notes are right,
so that to go by them comes to the same as to forget them and look again. There is one exception: a
field reference that was linked by an access to a static field is of no use to an access to an
instance, and the other way round (`Step.transparent`). -/

namespace JavaMachine

open Loader (Defines)

/-- What something ends with, whatever state it leaves. -/
def answer {σ α : Type} : EStateM.Result Interruption σ α → Except Interruption α
  | .ok value _ => .ok value
  | .error interruption _ => .error interruption

/-! ## States of classes -/

namespace Exec

theorem alter_alter {α : Type} {key : String} {absent : Unit → α} {f g : α → α}
    {entries : List (String × α)} :
    alter key absent f (alter key absent g entries) =
      alter key absent (fun value => f (g value)) entries := by
  induction entries with
  | nil => simp [alter]
  | cons entry rest ih =>
    obtain ⟨first, value⟩ := entry
    rw [alter, alter]
    split
    · next same => rw [alter, if_pos same]
    · next other => rw [alter, if_neg other, ih]

theorem withClass_withClass {c : LinkedClass} {f g : ClassState → ClassState} {machine : Machine} :
    withClass c f (withClass c g machine) = withClass c (fun state => f (g state)) machine := by
  rw [withClass, withClass, withClass, alter_alter]

/-- A class that is loaded is given out, and nothing changes. -/
theorem load_of_found {services : Services} {machine : Machine} {name : String} {c : LinkedClass}
    (sound : Loader.Sound services.sources machine.loaded)
    (found : machine.loaded.lookup name = some c) :
    load name services machine = .ok c machine := by
  unfold load
  rw [sound.load_of_found found]

end Exec

/-- The state of a class with other links. -/
def ClassState.relink (change : List (UInt16 × Linkage) → List (UInt16 × Linkage))
    (state : ClassState) : ClassState :=
  { state with links := change state.links }

namespace Step

variable {services : Services} {state other : StepState} {index : UInt16} {name : String}
  {c : LinkedClass} {link : Linkage}

/-! ## Noting and forgetting links -/

/-- The state in which the links of the method's class are changed. -/
def relink (change : List (UInt16 × Linkage) → List (UInt16 × Linkage)) (state : StepState) :
    StepState :=
  { state with
    machine := Exec.withClass state.frame.owner (ClassState.relink change) state.machine }

/-- The state in which a constant of the method's class is linked. -/
def withLink (state : StepState) (index : UInt16) (link : Linkage) : StepState :=
  relink ((index, link) :: ·) state

/-- The state in which nothing is noted of a constant of the method's class. -/
def forget (index : UInt16) (state : StepState) : StepState :=
  relink (·.filter (·.1 != index)) state

/-- What is noted of a constant of the method's class. -/
def link? (index : UInt16) (state : StepState) : Option Linkage :=
  (Exec.stateIn state.frame.owner state.machine).links.lookup index

theorem linkAt_eq : linkAt index services state = .ok (link? index state) state :=
  rfl

theorem setLink_eq : setLink index link services state = .ok () (withLink state index link) :=
  rfl

theorem relink_relink {f g : List (UInt16 × Linkage) → List (UInt16 × Linkage)} :
    relink f (relink g state) = relink (fun links => f (g links)) state :=
  congrArg (fun machine => ({ state with machine } : StepState)) Exec.withClass_withClass

theorem links_relink {change : List (UInt16 × Linkage) → List (UInt16 × Linkage)} :
    (Exec.stateIn state.frame.owner (relink change state).machine).links =
      change (Exec.stateIn state.frame.owner state.machine).links := by
  unfold relink
  rw [Exec.stateIn_withClass]
  rfl

theorem forget_forget : forget index (forget index state) = forget index state := by
  unfold forget
  rw [relink_relink]
  simp only [List.filter_filter, Bool.and_self]

theorem forget_withLink : forget index (withLink state index link) = forget index state := by
  unfold forget withLink
  rw [relink_relink]
  simp only [bne_self_eq_false, Bool.false_eq_true, not_false_eq_true, List.filter_cons_of_neg]

theorem link?_forget : link? index (forget index state) = none := by
  change (Exec.stateIn state.frame.owner (relink _ state).machine).links.lookup index = none
  rw [links_relink, List.lookup_eq_none_iff]
  intro entry member
  have kept := (List.mem_filter.mp member).2
  rw [bne_iff_ne] at kept ⊢
  exact Ne.symm kept

/-! ## Looking again -/

/-- Two ends that cannot be told apart if nothing is noted of a constant: with the same result or for
the same reason, and in the same state but for the links of the constant. -/
structure Alike {α : Type} (index : UInt16) (first second : EStateM.Result Interruption StepState α) :
    Prop where
  answer : answer first = answer second
  state : forget index (endState first) = forget index (endState second)

section Alike

variable {α β : Type}

theorem alike_ok {value : α} (similar : forget index state = forget index other) :
    Alike index (.ok value state) (.ok value other) :=
  ⟨rfl, similar⟩

theorem alike_error {interruption : Interruption}
    (similar : forget index state = forget index other) :
    Alike index (.error interruption state : EStateM.Result Interruption StepState α)
      (.error interruption other) :=
  ⟨rfl, similar⟩

theorem Alike.bind {first second : Step α} {next : α → Step β}
    (alike : Alike index (first services state) (second services other))
    (rest : ∀ value state other, forget index state = forget index other →
      Alike index (next value services state) (next value services other)) :
    Alike index ((first >>= next) services state) ((second >>= next) services other) := by
  obtain ⟨answers, states⟩ := alike
  simp only [Bind.bind, ReaderT.bind, EStateM.bind]
  cases ended : first services state with
  | ok value after =>
    cases ended' : second services other with
    | ok value' after' =>
      rw [ended, ended'] at answers states
      cases answers
      exact rest value after after' states
    | error => rw [ended, ended'] at answers; cases answers
  | error interruption after =>
    cases ended' : second services other with
    | ok => rw [ended, ended'] at answers; cases answers
    | error interruption' after' =>
      rw [ended, ended'] at answers states
      cases answers
      exact alike_error states

/-- Classes are loaded in the same way whatever is linked. -/
theorem alike_load (similar : forget index state = forget index other) :
    Alike index (onMachine (Exec.load name) services state)
      (onMachine (Exec.load name) services other) := by
  have same := congrArg (fun state : StepState => state.machine.loaded) similar
  have loaded : state.machine.loaded = other.machine.loaded := same
  have after (loaded : LoadedClasses) :
      forget index { state with machine := { state.machine with loaded } } =
        forget index { other with machine := { other.machine with loaded } } := by
    have same := congrArg (fun state : StepState =>
      ({ state with machine := { state.machine with loaded } } : StepState)) similar
    exact same
  unfold onMachine Exec.load
  dsimp only
  rw [loaded]
  cases Loader.load services.sources name other.machine.loaded with
  | ok c loaded => exact alike_ok (after loaded)
  | error error loaded => exact alike_error (after loaded)

theorem alike_setLink (similar : forget index state = forget index other) :
    Alike index (setLink index link services state) (setLink index link services other) :=
  alike_ok (forget_withLink.trans (similar.trans forget_withLink.symm))

theorem alike_ofExcept {result : Except Error α} (similar : forget index state = forget index other) :
    Alike index (onMachine (Exec.ofExcept result) services state)
      (onMachine (Exec.ofExcept result) services other) := by
  cases result with
  | ok value => exact alike_ok similar
  | error error => exact alike_error similar

end Alike

/-- A class is given out that is noted. -/
theorem classNamed_of_named (known : link? index state = some (.named c)) :
    classNamed index name services state = .ok c state := by
  rw [classNamed, Operation.bind_of_ok linkAt_eq, known]
  rfl

/-- A class that is not noted is loaded. -/
theorem classNamed_of_unnamed (unnamed : ∀ c, link? index state ≠ some (.named c)) :
    classNamed index name services state = (do
      let c ← onMachine (Exec.load name)
      setLink index (.named c)
      return c : Step LinkedClass) services state := by
  rw [classNamed, Operation.bind_of_ok linkAt_eq]
  cases known : link? index state with
  | none => rfl
  | some link =>
    cases link with
    | named c => exact absurd known (unnamed c)
    | staticField | instanceField | method => rfl

/-- A class that is loaded is given out, and noted. -/
theorem classNamed_of_loaded (unnamed : ∀ c, link? index state ≠ some (.named c))
    (loaded : Exec.load name services state.machine = .ok c state.machine) :
    classNamed index name services state = .ok c (withLink state index (.named c)) := by
  have load : onMachine (Exec.load name) services state = .ok c state := by
    simp only [onMachine, loaded]
  rw [classNamed_of_unnamed unnamed, Operation.bind_of_ok load, Operation.bind_of_ok setLink_eq]
  rfl

/-- Whether a constant is yet to be linked to a member of the class that it names. -/
def Unresolved (index : UInt16) (state : StepState) : Prop :=
  ∀ link, link? index state = some link → ∃ c, link = .named c

/-- Looks for a member of a class and notes it. -/
def search (index : UInt16) (find : LinkedClass → Except Error Linkage) (c : LinkedClass) :
    Step Linkage := do
  let link ← Exec.ofExcept (find c)
  setLink index link
  return link

theorem linked_of_unresolved {find : LinkedClass → Except Error Linkage}
    (unresolved : Unresolved index state) :
    linked index name find services state =
      (classNamed index name >>= search index find) services state := by
  rw [linked, Operation.bind_of_ok linkAt_eq]
  cases known : link? index state with
  | none => rfl
  | some link =>
    obtain ⟨c, rfl⟩ := unresolved link known
    rfl

theorem linked_of_member {find : LinkedClass → Except Error Linkage}
    (known : link? index state = some link) (member : ∀ c, link ≠ .named c) :
    linked index name find services state = .ok link state := by
  rw [linked, Operation.bind_of_ok linkAt_eq, known]
  cases link with
  | named c => exact absurd rfl (member c)
  | staticField | instanceField | method => rfl

theorem search_of_ok {find : LinkedClass → Except Error Linkage} (found : find c = .ok link) :
    search index find c services state = .ok link (withLink state index link) := by
  have finds : onMachine (Exec.ofExcept (find c)) services state = .ok link state := by
    rw [found]
    rfl
  rw [search]
  exact (Operation.bind_of_ok finds).trans (Operation.bind_of_ok setLink_eq)

theorem search_of_error {find : LinkedClass → Except Error Linkage} {error : Error}
    (missing : find c = .error error) :
    search index find c services state = .error (.fatal error) state := by
  have fails : onMachine (Exec.ofExcept (find c)) services state = .error (.fatal error) state := by
    rw [missing]
    rfl
  rw [search]
  exact Operation.bind_of_error fails

/-! ## Links of sound machines -/

/-- A constant is used in the code of a class, in a sound machine. -/
structure Uses (services : Services) (index : UInt16) (found : Constant) (state : StepState) :
    Prop where
  sound : state.machine.Sound services.sources
  defined : Defines services.sources state.frame.owner
  constant : state.frame.owner.constant? index = some found

namespace Uses

variable {found : Constant} (uses : Uses services index found state)

include uses

/-- A link is what the constant stands for. -/
theorem resolves (known : link? index state = some link) :
    Resolves services.sources state.frame.owner index link := by
  obtain ⟨before, rest, split, -⟩ := List.lookup_eq_some_iff.mp known
  exact (uses.sound.classes _ uses.defined).links index link
    (split ▸ List.mem_append_right before List.mem_cons_self)

/-- The class that a linked constant names is loaded. -/
theorem exists_loaded (known : link? index state = some link)
    (names : found.className? = some name) :
    ∃ d, state.machine.loaded.lookup name = some d ∧ Defines services.sources d ∧ d.name = name := by
  obtain ⟨before, rest, split, -⟩ := List.lookup_eq_some_iff.mp known
  have member := split ▸ List.mem_append_right before List.mem_cons_self
  obtain ⟨d, loaded⟩ :=
    uses.sound.links _ uses.defined index link found name member uses.constant names
  obtain ⟨named, defined, -⟩ := uses.sound.loaded _ _ loaded
  exact ⟨d, loaded, defined, named⟩

/-- It is given out when it is loaded again. -/
theorem classNamed_forget {d : LinkedClass} (loaded : state.machine.loaded.lookup name = some d) :
    classNamed index name services (forget index state) =
      .ok d (withLink (forget index state) index (.named d)) := by
  refine classNamed_of_loaded (fun c known => ?_) ?_
  · rw [link?_forget] at known
    cases known
  · exact Exec.load_of_found uses.sound.loaded loaded

theorem alike_classNamed (names : found.className? = some name) :
    Alike index (classNamed index name services state)
      (classNamed index name services (forget index state)) := by
  have similar : forget index state = forget index (forget index state) := forget_forget.symm
  by_cases named : ∃ c, link? index state = some (.named c)
  · obtain ⟨c, known⟩ := named
    obtain ⟨d, loaded, defined, isNamed⟩ := uses.exists_loaded known names
    cases uses.resolves known with
    | named constant names' cDefined =>
      cases constant.symm.trans uses.constant
      have same : c.name = d.name := (Option.some.inj (names'.symm.trans names)).trans isNamed.symm
      obtain rfl := cDefined.eq_of_name_eq defined same
      rw [classNamed_of_named known, uses.classNamed_forget loaded]
      exact alike_ok (similar.trans forget_withLink.symm)
  · have unnamed (c : LinkedClass) : link? index state ≠ some (.named c) :=
      fun known => named ⟨c, known⟩
    have forgotten (c : LinkedClass) : link? index (forget index state) ≠ some (.named c) :=
      fun known => by
        rw [link?_forget] at known
        cases known
    rw [classNamed_of_unnamed unnamed, classNamed_of_unnamed forgotten]
    refine (alike_load similar).bind fun c state other similar => ?_
    exact (alike_setLink similar).bind fun _ state other similar => alike_ok similar

/-- A member that is linked is the one that is found when it is looked for again. -/
theorem alike_linked {find : LinkedClass → Except Error Linkage}
    (names : found.className? = some name)
    (finds : ∀ link d, link? index state = some link → (∀ c, link ≠ .named c) →
      Defines services.sources d → d.name = name → find d = .ok link) :
    Alike index (linked index name find services state)
      (linked index name find services (forget index state)) := by
  have forgotten : Unresolved index (forget index state) := fun link known => by
    rw [link?_forget] at known
    cases known
  by_cases unresolved : Unresolved index state
  · rw [linked_of_unresolved unresolved, linked_of_unresolved forgotten]
    refine (uses.alike_classNamed names).bind fun c state other similar => ?_
    refine (alike_ofExcept similar).bind fun link state other similar => ?_
    exact (alike_setLink similar).bind fun _ state other similar => alike_ok similar
  · simp only [Unresolved, not_forall, not_exists] at unresolved
    obtain ⟨link, known, member⟩ := unresolved
    obtain ⟨d, loaded, defined, named⟩ := uses.exists_loaded known names
    rw [linked_of_member known member, linked_of_unresolved forgotten,
      Operation.bind_of_ok (uses.classNamed_forget loaded),
      search_of_ok (finds link d known member defined named)]
    exact alike_ok (by rw [forget_withLink, forget_withLink, forget_forget])

/-- At the first use of a constant for a member, that is looked for in the class that is loaded. -/
theorem answer_linked {find : LinkedClass → Except Error Linkage} {d : LinkedClass}
    (names : found.className? = some name) (unresolved : Unresolved index state)
    (loaded : state.machine.loaded.lookup name = some d) :
    answer (linked index name find services state) = (find d).mapError .fatal := by
  have forgotten : Unresolved index (forget index state) := fun link known => by
    rw [link?_forget] at known
    cases known
  have alike : Alike index (linked index name find services state)
      (linked index name find services (forget index state)) :=
    uses.alike_linked names fun link _ known member =>
      absurd (unresolved link known) (not_exists.mpr member)
  rw [alike.answer, linked_of_unresolved forgotten,
    Operation.bind_of_ok (uses.classNamed_forget loaded)]
  cases found : find d with
  | ok link => rw [search_of_ok found]; rfl
  | error error => rw [search_of_error found]; rfl

end Uses

/-- What becomes of a constant that is used does not depend on what was noted of it: the result or
the error is the same as if all of that is forgotten, and so is the state but for the links of the
constant. An access to fields of one kind comes too late if the constant is linked to one of the
other kind. -/
structure Transparent (services : Services) (index : UInt16) (state : StepState) : Prop where
  ofClass (name : String) (constant : state.frame.owner.constant? index = some (.classRef name)) :
    Alike index (classAt index services state) (classAt index services (forget index state))
  ofMethod (symbol : MethodSymbol)
    (constant : state.frame.owner.constant? index = some (.methodref symbol) ∨
      state.frame.owner.constant? index = some (.interfaceMethodref symbol)) :
    Alike index (methodAt index symbol services state)
      (methodAt index symbol services (forget index state))
  ofStatic (symbol : FieldSymbol)
    (constant : state.frame.owner.constant? index = some (.fieldref symbol))
    (fit : ∀ slot, link? index state ≠ some (.instanceField slot)) :
    Alike index (linked index symbol.owner symbol.findStatic services state)
      (linked index symbol.owner symbol.findStatic services (forget index state))
  ofInstance (symbol : FieldSymbol)
    (constant : state.frame.owner.constant? index = some (.fieldref symbol))
    (fit : ∀ owner slot, link? index state ≠ some (.staticField owner slot)) :
    Alike index (linked index symbol.owner symbol.findInstance services state)
      (linked index symbol.owner symbol.findInstance services (forget index state))
  lateStatic (symbol : FieldSymbol) (slot : Nat)
    (unfit : link? index state = some (.instanceField slot)) :
    staticSlot index symbol services state = fault .staticAccessToInstanceField services state
  lateInstance (symbol : FieldSymbol) (owner : LinkedClass) (slot : Nat)
    (unfit : link? index state = some (.staticField owner slot)) :
    instanceSlot index symbol services state = fault .instanceAccessToStaticField services state

namespace Uses

variable {found : Constant} (uses : Uses services index found state)

include uses

theorem alike_classAt (isClass : found = .classRef name) :
    Alike index (classAt index services state) (classAt index services (forget index state)) := by
  obtain rfl := isClass
  have read (state : StepState) (same : state.frame.owner.constant? index = some (.classRef name)) :
      classAt index services state = classNamed index name services state := by
    have constant : constantAt index services state = .ok (.classRef name) state := by
      simp only [constantAt, frame, Bind.bind, ReaderT.bind, EStateM.bind, same]
      rfl
    rw [classAt, Operation.bind_of_ok constant]
  rw [read state uses.constant, read (forget index state) uses.constant]
  exact uses.alike_classNamed rfl

theorem alike_methodAt {symbol : MethodSymbol}
    (isMethod : found = .methodref symbol ∨ found = .interfaceMethodref symbol) :
    Alike index (methodAt index symbol services state)
      (methodAt index symbol services (forget index state)) := by
  have names : found.className? = some symbol.owner := by rcases isMethod with rfl | rfl <;> rfl
  refine (uses.alike_linked names fun link d known member defined named => ?_).bind
    fun link state other similar => ?_
  · cases uses.resolves known with
    | named => exact absurd rfl (member _)
    | staticField constant | instanceField constant =>
      cases constant.symm.trans uses.constant
      rcases isMethod with same | same <;> cases same
    | @method other _ _ _ constant linkedDefined linkedNamed selected =>
      obtain rfl : symbol = other := by
        rcases isMethod with rfl | rfl <;> rcases constant with constant | constant <;>
          cases constant.symm.trans uses.constant <;> rfl
      obtain rfl := linkedDefined.eq_of_name_eq defined (linkedNamed.trans named.symm)
      rw [MethodSymbol.find, selected]
  · cases link with
    | named | staticField | instanceField => exact alike_error similar
    | method owner position =>
      dsimp only
      cases owner.method? position with
      | none => exact alike_error similar
      | some method => exact alike_ok similar

theorem alike_findStatic {symbol : FieldSymbol} (isField : found = .fieldref symbol)
    (fit : ∀ slot, link? index state ≠ some (.instanceField slot)) :
    Alike index (linked index symbol.owner symbol.findStatic services state)
      (linked index symbol.owner symbol.findStatic services (forget index state)) := by
  obtain rfl := isField
  refine uses.alike_linked rfl fun link d known member defined named => ?_
  cases uses.resolves known with
  | named => exact absurd rfl (member _)
  | instanceField => exact absurd known (fit _)
  | staticField constant linkedDefined linkedNamed declared typed =>
    cases constant.symm.trans uses.constant
    obtain rfl := linkedDefined.eq_of_name_eq defined (linkedNamed.trans named.symm)
    rw [FieldSymbol.findStatic, declared]
    exact if_pos typed
  | method constant =>
    rcases constant with constant | constant <;> cases constant.symm.trans uses.constant

theorem alike_findInstance {symbol : FieldSymbol} (isField : found = .fieldref symbol)
    (fit : ∀ owner slot, link? index state ≠ some (.staticField owner slot)) :
    Alike index (linked index symbol.owner symbol.findInstance services state)
      (linked index symbol.owner symbol.findInstance services (forget index state)) := by
  obtain rfl := isField
  refine uses.alike_linked rfl fun link d known member defined named => ?_
  cases uses.resolves known with
  | named => exact absurd rfl (member _)
  | staticField => exact absurd known (fit _ _)
  | instanceField constant linkedDefined linkedNamed declared typed =>
    cases constant.symm.trans uses.constant
    obtain rfl := linkedDefined.eq_of_name_eq defined (linkedNamed.trans named.symm)
    rw [FieldSymbol.findInstance, declared]
    exact if_pos typed
  | method constant =>
    rcases constant with constant | constant <;> cases constant.symm.trans uses.constant

end Uses

/-- **Links are transparent in sound machines**, in the code of every class. -/
theorem transparent (sound : state.machine.Sound services.sources)
    (defined : Defines services.sources state.frame.owner) (index : UInt16) :
    Transparent services index state where
  ofClass _ constant := Uses.alike_classAt ⟨sound, defined, constant⟩ rfl
  ofMethod symbol constant := by
    rcases constant with constant | constant
    · exact Uses.alike_methodAt ⟨sound, defined, constant⟩ (.inl rfl)
    · exact Uses.alike_methodAt ⟨sound, defined, constant⟩ (.inr rfl)
  ofStatic _ constant := Uses.alike_findStatic ⟨sound, defined, constant⟩ rfl
  ofInstance _ constant := Uses.alike_findInstance ⟨sound, defined, constant⟩ rfl
  lateStatic symbol slot unfit := by
    have known : linked index symbol.owner symbol.findStatic services state = _ :=
      linked_of_member unfit nofun
    rw [staticSlot, Operation.bind_of_ok known]
  lateInstance symbol owner slot unfit := by
    have known : linked index symbol.owner symbol.findInstance services state = _ :=
      linked_of_member unfit nofun
    rw [instanceSlot, Operation.bind_of_ok known]

end Step

end JavaMachine
