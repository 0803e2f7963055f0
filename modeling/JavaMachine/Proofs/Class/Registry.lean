import JavaMachine.Proofs.Class.Coherence
import JavaMachine.Proofs.Class.Supply

/-! # A registry of cells

A loader that keeps a cell for each class, empty while the class is being made, and marks the class
that it waits for and those that are being loaded. It gives the classes and the errors that the
loader without cells gives, is never cut off, and leaves no empty cell and no mark behind
(`Loader.Registry.load_eq`). -/

namespace JavaMachine.Loader

variable {sources : List ClassSource}

/-- The place of a class, which stays empty until the class is made. -/
inductive Cell where
  | empty
  | filled (c : LinkedClass)

/-- The books of a loader with cells. -/
structure Registry where
  /-- The cells by name. -/
  cells : String → Option Cell
  /-- The names that are marked as being loaded. -/
  loading : List String
  /-- The name that is marked as waited for. -/
  waiting : Option String
  /-- Whether a load was cut off because it needed too much depth. -/
  overrun : Bool

namespace Registry

/-- Marks a name as waited for. There is a cell for it, which is made if need be. -/
def await (registry : Registry) (name : String) : Registry :=
  { registry with cells := Function.update registry.cells name (some .empty), waiting := some name }

/-- Takes the mark of waiting away. -/
def giveUp (registry : Registry) : Registry :=
  { registry with waiting := none }

/-- Marks a name as being loaded, and no longer as waited for. -/
def begin (registry : Registry) (name : String) : Registry :=
  { registry with waiting := none, loading := name :: registry.loading }

/-- Takes the marks of a name away. -/
def unmark (registry : Registry) (name : String) : Registry :=
  { registry with waiting := none, loading := registry.loading.erase name }

/-- Puts a class into the cell of a name. -/
def fill (registry : Registry) (name : String) (c : LinkedClass) : Registry :=
  { registry with cells := Function.update registry.cells name (some (.filled c)) }

/-- Removes the cell of a name if it is empty. -/
def sweep (registry : Registry) (name : String) : Registry :=
  match registry.cells name with
  | some .empty => { registry with cells := Function.update registry.cells name none }
  | _ => registry

/-- Looks into the cell of a name. If there is no class in it, the name is waited for, which must
not be one that is being loaded; then it is marked as being loaded while its class is made. At the
end the marks are gone, and so is the cell if it is still empty. -/
def enter (name : String) (make : LoadingOn Registry LinkedClass) :
    LoadingOn Registry LinkedClass := fun registry =>
  match registry.cells name with
  | some (.filled c) => .ok c registry
  | _ =>
    let waiting := registry.await name
    if waiting.loading.contains name then .error (.classLoad name .cyclicInheritance) waiting.giveUp
    else
      match make (waiting.begin name) with
      | .ok c after => .ok c ((after.unmark name).fill name c)
      | .error error after => .error error ((after.unmark name).sweep name)

/-- The rules of a loader with cells. -/
def rules : LoadRules Registry where
  enter _ name make := enter name make
  refuse name := enter name (throw (.classLoad name .notFound))
  stop name := fun registry =>
    .error (.classLoad name .cyclicInheritance) { registry with overrun := true }

/-- The class with a name, loaded if need be. -/
def load (sources : List ClassSource) (name : String) : LoadingOn Registry LinkedClass :=
  rules.resolve sources (depthBound sources) [] name

/-- The registry that has the loaded classes in its cells, and empty cells for the classes that are
being loaded. -/
def during (loading : List String) (loaded : LoadedClasses) : Registry where
  cells name := if name ∈ loading then some .empty else (loaded.lookup name).map .filled
  loading
  waiting := none
  overrun := false

/-- The registry that has the loaded classes in its cells, while nothing is being loaded. -/
def idle (loaded : LoadedClasses) : Registry :=
  during [] loaded

/-! ## The cells while classes are being loaded -/

section Enter

variable {loading : List String} {loaded after : LoadedClasses} {name : String}
  {make : LoadingOn Registry LinkedClass} {c : LinkedClass} {error : Error}

theorem cells_of_mem (member : name ∈ loading) :
    (during loading loaded).cells name = some .empty :=
  if_pos member

theorem cells_of_not_mem (outside : name ∉ loading) :
    (during loading loaded).cells name = (loaded.lookup name).map .filled :=
  if_neg outside

theorem cells_cons_of_ne {other : String} (differ : other ≠ name) :
    (during (name :: loading) loaded).cells other = (during loading loaded).cells other :=
  if_congr (List.mem_cons.trans (or_iff_right differ)) rfl rfl

theorem giveUp_await (member : name ∈ loading) :
    ((during loading loaded).await name).giveUp = during loading loaded := by
  have same : Function.update (during loading loaded).cells name (some .empty) =
      (during loading loaded).cells :=
    Function.update_eq_self_iff.mpr (cells_of_mem member).symm
  simp only [await, giveUp, same]
  rfl

/-- While the class of a name is made there is an empty cell for it. -/
theorem begin_await (loading : List String) (loaded : LoadedClasses) (name : String) :
    ((during loading loaded).await name).begin name = during (name :: loading) loaded := by
  have cells : Function.update (during loading loaded).cells name (some .empty) =
      (during (name :: loading) loaded).cells := by
    funext other
    by_cases same : other = name
    · subst same
      rw [Function.update_self, cells_of_mem List.mem_cons_self]
    · rw [Function.update_of_ne same, cells_cons_of_ne same]
  simp only [await, begin, cells]
  rfl

theorem fill_unmark (outside : name ∉ loading) :
    ((during (name :: loading) after).unmark name).fill name c =
      during loading ((name, c) :: after) := by
  have cells : Function.update (during (name :: loading) after).cells name (some (.filled c)) =
      (during loading ((name, c) :: after)).cells := by
    funext other
    by_cases same : other = name
    · subst same
      rw [Function.update_self, cells_of_not_mem outside, lookup_cons_self]
      rfl
    · rw [Function.update_of_ne same, cells_cons_of_ne same]
      simp only [during, lookup_cons_ne c after same]
  simp only [unmark, fill, cells]
  simp only [during, List.erase_cons_head]

theorem sweep_unmark (outside : name ∉ loading) (missing : after.lookup name = none) :
    ((during (name :: loading) after).unmark name).sweep name = during loading after := by
  have cell : ((during (name :: loading) after).unmark name).cells name = some .empty :=
    cells_of_mem List.mem_cons_self
  have cells : Function.update (during (name :: loading) after).cells name none =
      (during loading after).cells := by
    funext other
    by_cases same : other = name
    · subst same
      rw [Function.update_self, cells_of_not_mem outside, missing]
      rfl
    · rw [Function.update_of_ne same, cells_cons_of_ne same]
  rw [sweep, cell]
  simp only [unmark, cells]
  simp only [during, List.erase_cons_head]

theorem enter_of_found (outside : name ∉ loading) (found : loaded.lookup name = some c) :
    enter name make (during loading loaded) = .ok c (during loading loaded) := by
  unfold enter
  rw [cells_of_not_mem outside, found]
  rfl

theorem enter_of_mem (member : name ∈ loading) :
    enter name make (during loading loaded) =
      .error (.classLoad name .cyclicInheritance) (during loading loaded) := by
  have contained : loading.contains name = true := List.contains_iff_mem.mpr member
  unfold enter
  rw [cells_of_mem member]
  dsimp only
  rw [giveUp_await member]
  exact if_pos contained

/-- A class that is neither loaded nor being loaded is made while its name is marked. -/
theorem enter_of_missing (outside : name ∉ loading) (missing : loaded.lookup name = none) :
    enter name make (during loading loaded) =
      match make (during (name :: loading) loaded) with
      | .ok c after => .ok c ((after.unmark name).fill name c)
      | .error error after => .error error ((after.unmark name).sweep name) := by
  have absent : ¬ loading.contains name = true := by simpa using outside
  unfold enter
  rw [cells_of_not_mem outside, missing]
  dsimp only [Option.map_none]
  rw [begin_await]
  exact if_neg absent

end Enter

/-! ## The loader with cells and the one without -/

/-- A registry with cells for these classes, which are being loaded under names that they can
have. -/
def Matches (loading : List String) (loaded : LoadedClasses) (registry : Registry) : Prop :=
  registry = during loading loaded ∧ ∀ name ∈ loading, Proper name

theorem shadows_rules (names : List String) :
    Shadows sources Matches rules (Enough names) where
  loaded _ joint found := by
    obtain ⟨rfl, defined, -⟩ := joint.sound.known found
    obtain ⟨rfl, -⟩ := joint.matching
    refine LoadRules.resolve_of_enter defined.proper fun make => enter_of_found ?_ found
    intro member
    rw [joint.idle _ member] at found
    cases found
  busy joint member := by
    obtain ⟨rfl, -⟩ := joint.matching
    exact enter_of_mem member
  fresh {loading name} make {loaded other} joint outside missing proper := by
    obtain ⟨rfl, improper⟩ := joint.matching
    have marked : ∀ other ∈ name :: loading, Proper other :=
      List.forall_mem_cons.mpr ⟨proper, improper⟩
    refine ⟨during (name :: loading) loaded, ⟨rfl, marked⟩, ?_, ?_⟩
    · rintro c after _ rfl ⟨rfl, -⟩ made
      refine ⟨_, ?_, rfl, improper⟩
      rw [← fill_unmark outside]
      change enter c.name make _ = _
      rw [enter_of_missing outside missing, made]
    · rintro error after _ absent ⟨rfl, -⟩ failed
      refine ⟨_, ?_, rfl, improper⟩
      rw [← sweep_unmark outside absent]
      change enter name make _ = _
      rw [enter_of_missing outside missing, failed]
  refuse {loading name loaded other} joint improper := by
    obtain ⟨rfl, proper⟩ := joint.matching
    have outside : name ∉ loading := fun member => improper (proper name member)
    have missing : loaded.lookup name = none := by
      by_contra present
      obtain ⟨c, found⟩ := Option.ne_none_iff_exists'.mp present
      obtain ⟨rfl, defined, -⟩ := joint.sound.known found
      exact improper defined.proper
    have entered : rules.refuse name = enter name (throw (.classLoad name .notFound)) := rfl
    rw [entered, enter_of_missing outside missing]
    exact congrArg (EStateM.Result.error _) (sweep_unmark outside missing)
  stop {loading name _ _} enough _ := absurd enough (not_enough_zero loading name)

/-- The end of a load, with the classes that are then loaded in cells and nothing being loaded. -/
def ended : EStateM.Result Error LoadedClasses LinkedClass →
    EStateM.Result Error Registry LinkedClass
  | .ok c after => .ok c (idle after)
  | .error error after => .error error (idle after)

/-- **Cells and marks change nothing.** The loader with cells ends as the one without, is not cut
off, and leaves neither an empty cell nor a mark. -/
theorem load_eq (bounded : ∀ source ∈ sources, source.Bounded) {loaded : LoadedClasses}
    (reachable : Reachable sources loaded) (name : String) :
    load sources name (idle loaded) = ended (Loader.load sources name loaded) := by
  obtain ⟨names, supply⟩ := exists_supply bounded
  have matching : Matches [] loaded (idle loaded) := ⟨rfl, nofun⟩
  have loads := (shadows_rules names).loads (fun _ => True) (fun _ _ _ _ => trivial)
    supply.descends (supply.enough_start name) trivial loaded (idle loaded)
    ⟨reachable.sound, nofun, matching⟩
  rw [load]
  rw [← Loader.load] at loads
  cases result : Loader.load sources name loaded with
  | ok c after =>
    rw [result] at loads
    obtain ⟨_, same, joint, -⟩ := loads.of_ok
    rw [same, joint.matching.1]
    rfl
  | error error after =>
    rw [result] at loads
    obtain ⟨_, same, joint, -⟩ := loads.of_error
    rw [same, joint.matching.1]
    rfl

end Registry

end JavaMachine.Loader
