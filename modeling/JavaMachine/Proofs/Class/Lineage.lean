import JavaMachine.Host.Member
import JavaMachine.Proofs.Class.Definition

/-! # The order in which ancestors are searched

A class comes before what is above it, and what is above its superclass comes before what is above
its interfaces (`LinkedClass.preorder`). That order repeats what is reached on several ways. A search
that skips the classes that it has met goes through the same classes, each where it comes first
(`LinkedClass.lineage_eq`), and so it finds the same declarations first (`Candidate.all_eq`). It makes
no difference whether it calls itself for each class or keeps a list of the classes that are still to
be visited (`Candidate.search_eq_all`). -/

/-! ## The first entries with their keys -/

namespace List

variable {α β : Type} {key : α → String} {seen others : List String} {entries : List α} {x y : α}
  {k : String}

/-- The entries whose keys are neither among those seen before nor those of earlier entries. -/
def firstsBy (key : α → String) : (seen : List String) → List α → List α
  | _, [] => []
  | seen, first :: rest =>
    if key first ∈ seen then firstsBy key seen rest
    else first :: firstsBy key (key first :: seen) rest

theorem firstsBy_nil (seen : List String) : firstsBy key seen [] = [] :=
  rfl

theorem firstsBy_cons (seen : List String) (first : α) (rest : List α) :
    firstsBy key seen (first :: rest) =
      if key first ∈ seen then firstsBy key seen rest
      else first :: firstsBy key (key first :: seen) rest :=
  rfl

theorem firstsBy_congr (same : ∀ k, k ∈ seen ↔ k ∈ others) (entries : List α) :
    firstsBy key seen entries = firstsBy key others entries := by
  induction entries generalizing seen others with
  | nil => rfl
  | cons first rest ih =>
    have both (k : String) : k ∈ key first :: seen ↔ k ∈ key first :: others := by
      rw [List.mem_cons, List.mem_cons, same]
    simp only [firstsBy_cons, same (key first), ih same, ih both]

theorem firstsBy_append (seen : List String) (front back : List α) :
    firstsBy key seen (front ++ back) =
      firstsBy key seen front ++ firstsBy key (front.map key ++ seen) back := by
  induction front generalizing seen with
  | nil => rfl
  | cons first rest ih =>
    rw [List.cons_append, firstsBy_cons, firstsBy_cons]
    split
    · next met =>
      rw [ih]
      congr 1
      refine firstsBy_congr (fun k => ?_) back
      simp only [List.map_cons, List.cons_append, List.mem_append, List.mem_cons]
      constructor
      · exact .inr
      · rintro (rfl | inside)
        · exact .inr met
        · exact inside
    · rw [ih, List.cons_append]
      congr 2
      refine firstsBy_congr (fun k => ?_) back
      simp only [List.map_cons, List.cons_append, List.mem_append, List.mem_cons]
      exact or_left_comm

theorem firstsBy_eq_nil (all : ∀ x ∈ entries, key x ∈ seen) : firstsBy key seen entries = [] := by
  induction entries with
  | nil => rfl
  | cons first rest ih =>
    rw [firstsBy_cons, if_pos (all first List.mem_cons_self)]
    exact ih fun x member => all x (List.mem_cons_of_mem _ member)

theorem not_mem_of_firstsBy (member : x ∈ firstsBy key seen entries) : key x ∉ seen := by
  induction entries generalizing seen with
  | nil => cases member
  | cons first rest ih =>
    rw [firstsBy_cons] at member
    split at member
    · exact ih member
    · next new =>
      rcases List.mem_cons.mp member with rfl | member
      · exact new
      · exact fun met => ih member (List.mem_cons_of_mem _ met)

/-- What is kept is the first entry with its key. -/
theorem mem_firstsBy_iff : x ∈ firstsBy key seen entries ↔
    key x ∉ seen ∧ entries.find? (key · == key x) = some x := by
  induction entries generalizing seen with
  | nil => simp only [firstsBy_nil, List.not_mem_nil, List.find?_nil, reduceCtorEq, and_false]
  | cons first rest ih =>
    rw [firstsBy_cons]
    by_cases same : key first = key x
    · have found : (first :: rest).find? (key · == key x) = some first :=
        List.find?_cons_of_pos (beq_iff_eq.mpr same)
      rw [found, Option.some.injEq]
      split
      · next met =>
        have seenX : key x ∈ seen := same ▸ met
        rw [ih]
        exact iff_of_false (fun both => both.1 seenX) fun both => both.1 seenX
      · next new =>
        constructor
        · intro member
          rcases List.mem_cons.mp member with rfl | member
          · exact ⟨new, rfl⟩
          · exact absurd (same ▸ List.mem_cons_self) (not_mem_of_firstsBy member)
        · rintro ⟨-, rfl⟩
          exact List.mem_cons_self
    · have found : (first :: rest).find? (key · == key x) = rest.find? (key · == key x) :=
        List.find?_cons_of_neg fun equal => same (beq_iff_eq.mp equal)
      rw [found]
      split
      · exact ih
      · have other : x ≠ first := fun equal => same (congrArg key equal.symm)
        rw [List.mem_cons, ih, List.mem_cons, not_or, or_iff_right other]
        exact and_congr_left fun _ => and_iff_right (Ne.symm same)

theorem mem_map_firstsBy_iff :
    k ∈ (firstsBy key seen entries).map key ↔ k ∉ seen ∧ k ∈ entries.map key := by
  constructor
  · intro member
    obtain ⟨x, kept, rfl⟩ := List.mem_map.mp member
    obtain ⟨new, found⟩ := mem_firstsBy_iff.mp kept
    exact ⟨new, List.mem_map_of_mem (List.mem_of_find?_eq_some found)⟩
  · rintro ⟨new, member⟩
    obtain ⟨y, inside, rfl⟩ := List.mem_map.mp member
    cases found : entries.find? (key · == key y) with
    | none => exact absurd (beq_self_eq_true (key y)) (List.find?_eq_none.mp found y inside)
    | some x =>
      have holds := List.find?_some found
      have same : key x = key y := beq_iff_eq.mp holds
      rw [← same] at found new ⊢
      exact List.mem_map_of_mem (mem_firstsBy_iff.mpr ⟨new, found⟩)

theorem nodup_map_firstsBy (seen : List String) (entries : List α) :
    ((firstsBy key seen entries).map key).Nodup := by
  induction entries generalizing seen with
  | nil => exact .nil
  | cons first rest ih =>
    rw [firstsBy_cons]
    split
    · exact ih seen
    · refine List.nodup_cons.mpr ⟨fun again => ?_, ih _⟩
      exact (mem_map_firstsBy_iff.mp again).1 List.mem_cons_self

theorem findIdx_cons_of_ne {first : α} {rest : List α} (other : key first ≠ k) :
    (first :: rest).findIdx (key · == k) = rest.findIdx (key · == k) + 1 := by
  rw [List.findIdx_cons, beq_eq_false_iff_ne.mpr other]
  rfl

/-- What is kept is in the order in which the keys come first. -/
theorem pairwise_firstsBy (seen : List String) (entries : List α) :
    (firstsBy key seen entries).Pairwise fun x y =>
      entries.findIdx (key · == key x) < entries.findIdx (key · == key y) := by
  induction entries generalizing seen with
  | nil => exact .nil
  | cons first rest ih =>
    rw [firstsBy_cons]
    have later {seen : List String} {x : α} (met : key first ∈ seen)
        (kept : x ∈ firstsBy key seen rest) : key first ≠ key x :=
      fun same => not_mem_of_firstsBy kept (same ▸ met)
    have behind {seen : List String} (met : key first ∈ seen) :
        (firstsBy key seen rest).Pairwise fun x y =>
          (first :: rest).findIdx (key · == key x) < (first :: rest).findIdx (key · == key y) := by
      refine (ih seen).imp_of_mem fun inside inside' before => ?_
      rw [findIdx_cons_of_ne (later met inside), findIdx_cons_of_ne (later met inside')]
      exact Nat.succ_lt_succ before
    split
    · next met => exact behind met
    · refine List.pairwise_cons.mpr ⟨fun y kept => ?_, behind List.mem_cons_self⟩
      rw [findIdx_cons_of_ne (later List.mem_cons_self kept), List.findIdx_cons, beq_self_eq_true]
      exact Nat.succ_pos _

end List

namespace JavaMachine

open Relation (ReflTransGen)

namespace LinkedClass

variable {c d e : LinkedClass} {visited pending : List LinkedClass}

/-- The superclass and the interfaces of a class, in order. -/
def parents (c : LinkedClass) : List LinkedClass :=
  c.superclass.toList ++ c.interfaces

/-- A class, then what is above its superclass, then what is above its interfaces in order. What is
reached on several ways is repeated. -/
def preorder : LinkedClass → List LinkedClass
  | mk info superclass interfaces element table =>
    mk info superclass interfaces element table ::
      (aboveSuperclass superclass ++ aboveInterfaces interfaces)
where
  aboveSuperclass : Option LinkedClass → List LinkedClass
    | none => []
    | some superclass => preorder superclass
  aboveInterfaces : List LinkedClass → List LinkedClass
    | [] => []
    | first :: rest => preorder first ++ aboveInterfaces rest

theorem aboveInterfaces_eq (interfaces : List LinkedClass) :
    preorder.aboveInterfaces interfaces = interfaces.flatMap preorder := by
  induction interfaces with
  | nil => rfl
  | cons first rest ih => exact congrArg (preorder first ++ ·) ih

theorem preorder_eq (c : LinkedClass) : c.preorder = c :: c.parents.flatMap preorder := by
  obtain ⟨info, superclass, interfaces, element, table⟩ := c
  have split : preorder (mk info superclass interfaces element table) =
      mk info superclass interfaces element table ::
        (preorder.aboveSuperclass superclass ++ preorder.aboveInterfaces interfaces) := rfl
  rw [split, aboveInterfaces_eq]
  cases superclass with
  | none => rfl
  | some above => rfl

/-- Adds some classes and what is above them to a list of classes. -/
def lineageOf (visited pending : List LinkedClass) : List LinkedClass :=
  pending.foldl (fun visited c => c.lineageFrom visited) visited

theorem lineageOf_append (visited front back : List LinkedClass) :
    lineageOf visited (front ++ back) = lineageOf (lineageOf visited front) back :=
  List.foldl_append

theorem ofInterfaces_eq (visited interfaces : List LinkedClass) :
    lineageFrom.ofInterfaces visited interfaces = lineageOf visited interfaces := by
  induction interfaces generalizing visited with
  | nil => rfl
  | cons first rest ih => exact ih _

theorem lineageFrom_eq (c : LinkedClass) (visited : List LinkedClass) : c.lineageFrom visited =
    if c.name ∈ visited.map name then visited else lineageOf (visited ++ [c]) c.parents := by
  obtain ⟨info, superclass, interfaces, element, table⟩ := c
  have met : visited.any (·.name == info.name) = true ↔ info.name ∈ visited.map name := by
    simp only [List.any_eq_true, beq_iff_eq, List.mem_map]
  rw [lineageFrom, ofInterfaces_eq]
  simp only [met]
  cases superclass with
  | none => rfl
  | some above => rfl

theorem mem_parents_iff : d ∈ c.parents ↔ c.superclass = some d ∨ d ∈ c.interfaces := by
  rw [parents, List.mem_append, Option.mem_toList]

theorem LinksTo.of_mem_parents (member : d ∈ c.parents) : c.LinksTo d := by
  rcases mem_parents_iff.mp member with extended | implemented
  · exact .superclass extended
  · exact .interface implemented

/-- The classes above a class are those that its superclass and its interfaces lead to. -/
theorem mem_preorder_iff :
    d ∈ c.preorder ↔ ReflTransGen (fun below above => above ∈ below.parents) c d := by
  constructor
  · intro member
    induction c using LinksTo.wellFounded.induction with
    | _ c ih =>
      rw [preorder_eq] at member
      rcases List.mem_cons.mp member with rfl | member
      · exact .refl
      · obtain ⟨above, parent, member⟩ := List.mem_flatMap.mp member
        exact .head parent (ih above (.of_mem_parents parent) member)
  · intro path
    induction path using ReflTransGen.head_induction_on with
    | refl =>
      rw [preorder_eq]
      exact List.mem_cons_self
    | head parent _ ih =>
      rw [preorder_eq]
      exact List.mem_cons_of_mem _ (List.mem_flatMap.mpr ⟨_, parent, ih⟩)

theorem self_mem_preorder (c : LinkedClass) : c ∈ c.preorder :=
  mem_preorder_iff.mpr .refl

theorem mem_preorder_trans (near : d ∈ c.preorder) (far : e ∈ d.preorder) : e ∈ c.preorder :=
  mem_preorder_iff.mpr ((mem_preorder_iff.mp near).trans (mem_preorder_iff.mp far))

theorem sizeOf_le_of_mem_preorder (member : d ∈ c.preorder) : sizeOf d ≤ sizeOf c := by
  have path := mem_preorder_iff.mp member
  induction path with
  | refl => exact le_rfl
  | tail path parent ih =>
    exact (LinksTo.of_mem_parents parent).sizeOf_lt.le.trans (ih (mem_preorder_iff.mpr path))

/-- A class is not above its own superclass or interfaces. -/
theorem not_mem_preorder_parent (parent : d ∈ c.parents) : c ∉ d.preorder := fun member =>
  Nat.not_lt_of_le (sizeOf_le_of_mem_preorder member) (LinksTo.of_mem_parents parent).sizeOf_lt

/-! ## Skipping what was met -/

/-- Classes whose names tell them apart. -/
def NamesApart (classes : List LinkedClass) : Prop :=
  ∀ c ∈ classes, ∀ d ∈ classes, c.name = d.name → c = d

/-- All that is above a class and was visited was left with all that is above it visited. -/
def Settled (visited : List LinkedClass) (c : LinkedClass) : Prop :=
  ∀ d ∈ c.preorder, d.name ∈ visited.map name → ∀ e ∈ d.preorder, e.name ∈ visited.map name

theorem NamesApart.mono {front back : List LinkedClass} (apart : NamesApart back)
    (within : ∀ c ∈ front, c ∈ back) : NamesApart front :=
  fun c member d member' => apart c (within c member) d (within d member')

/-- A search from a class adds what is above it and was not visited, each class once. -/
def Searches (c : LinkedClass) : Prop :=
  ∀ visited, Settled visited c →
    c.lineageFrom visited = visited ++ List.firstsBy name (visited.map name) c.preorder

theorem lineageOf_eq (each : ∀ c ∈ pending, Searches c) (apart : NamesApart (pending.flatMap preorder))
    (settled : ∀ c ∈ pending, Settled visited c) : lineageOf visited pending =
      visited ++ List.firstsBy name (visited.map name) (pending.flatMap preorder) := by
  induction pending generalizing visited with
  | nil => exact (List.append_nil visited).symm
  | cons c rest ih =>
    have first := each c List.mem_cons_self visited (settled c List.mem_cons_self)
    generalize found : List.firstsBy name (visited.map name) c.preorder = met at first
    have names (k : String) : k ∈ (visited ++ met).map name ↔
        k ∈ c.preorder.map name ++ visited.map name := by
      rw [List.map_append, List.mem_append, List.mem_append, ← found, List.mem_map_firstsBy_iff]
      tauto
    have restSettled : ∀ d ∈ rest, Settled (visited ++ met) d := by
      intro d member e above named f aboveAbove
      rw [names, List.mem_append] at named ⊢
      rcases named with named | named
      · obtain ⟨g, reached, same⟩ := List.mem_map.mp named
        have equal : g = e := apart g
          (List.mem_flatMap.mpr ⟨c, List.mem_cons_self, reached⟩) e
          (List.mem_flatMap.mpr ⟨d, List.mem_cons_of_mem _ member, above⟩) same
        subst equal
        exact .inl (List.mem_map_of_mem (mem_preorder_trans reached aboveAbove))
      · exact .inr (settled d (List.mem_cons_of_mem _ member) e above named f aboveAbove)
    have rest := ih (fun d member => each d (List.mem_cons_of_mem _ member))
      (apart.mono fun d member => by
        obtain ⟨above, inside, reached⟩ := List.mem_flatMap.mp member
        exact List.mem_flatMap.mpr ⟨above, List.mem_cons_of_mem _ inside, reached⟩) restSettled
    rw [List.flatMap_cons, List.firstsBy_append, found, ← List.append_assoc,
      ← List.firstsBy_congr names, ← rest, ← first]
    rfl

theorem searches (apart : NamesApart c.preorder) : Searches c := by
  induction c using LinksTo.wellFounded.induction with
  | _ c ih =>
    intro visited settled
    have reached {above d : LinkedClass} (parent : above ∈ c.parents) (member : d ∈ above.preorder) :
        d ∈ c.preorder := by
      rw [preorder_eq]
      exact List.mem_cons_of_mem _ (List.mem_flatMap.mpr ⟨above, parent, member⟩)
    rw [lineageFrom_eq]
    split
    · next met =>
      have nothing : List.firstsBy name (visited.map name) c.preorder = [] :=
        List.firstsBy_eq_nil (settled c (self_mem_preorder c) met)
      rw [nothing, List.append_nil]
    · next new =>
      have names (k : String) : k ∈ (visited ++ [c]).map name ↔ k ∈ c.name :: visited.map name := by
        simp only [List.map_append, List.map_cons, List.map_nil, List.mem_append, List.mem_cons,
          List.not_mem_nil, or_false]
        exact or_comm
      -- What was visited before is settled, and the class itself is not met again above it.
      have parentsSettled : ∀ above ∈ c.parents, Settled (visited ++ [c]) above := by
        intro above parent d member named e reachedAbove
        rw [names, List.mem_cons] at named ⊢
        rcases named with itself | old
        · have same := apart d (reached parent member) c (self_mem_preorder c) itself
          exact absurd (same ▸ member) (not_mem_preorder_parent parent)
        · exact .inr (settled d (reached parent member) old e reachedAbove)
      have parents := lineageOf_eq
        (fun above parent => ih above (.of_mem_parents parent) (apart.mono fun d => reached parent))
        (apart.mono fun d member => by
          obtain ⟨above, parent, member⟩ := List.mem_flatMap.mp member
          exact reached parent member) parentsSettled
      rw [parents, preorder_eq, List.firstsBy_cons, if_neg new, List.firstsBy_congr names,
        List.append_assoc]
      rfl

/-- **A search that skips what it has met keeps the order of the ancestors.** -/
theorem lineage_eq (apart : NamesApart c.preorder) :
    c.lineage = List.firstsBy name [] c.preorder :=
  searches apart [] fun _ _ named => (List.not_mem_nil named).elim

theorem sum_sizeOf_le (classes : List LinkedClass) : (classes.map sizeOf).sum ≤ sizeOf classes := by
  induction classes with
  | nil => exact Nat.zero_le _
  | cons first rest ih =>
    rw [List.map_cons, List.sum_cons, List.cons.sizeOf_spec]
    omega

theorem sum_sizeOf_parents_lt (c : LinkedClass) : (c.parents.map sizeOf).sum < sizeOf c := by
  obtain ⟨info, superclass, interfaces, element, table⟩ := c
  have above := sum_sizeOf_le interfaces
  change ((superclass.toList ++ interfaces).map sizeOf).sum < _
  rw [List.map_append, List.sum_append, mk.sizeOf_spec]
  cases superclass with
  | none =>
    rw [Option.toList_none, List.map_nil, List.sum_nil]
    omega
  | some extended =>
    rw [Option.toList_some, List.map_singleton, List.sum_singleton, Option.some.sizeOf_spec]
    omega

end LinkedClass

/-! ## Declarations -/

namespace Candidate

variable {test : Method → Bool} {c : LinkedClass} {classes visited pending : List LinkedClass}
  {seen : List String} {name : String} {static : Bool}

/-- The descriptor of a method that may be called. -/
def descriptorText (candidate : Candidate) : String :=
  candidate.method.descriptorText

theorem distinct_eq (seen : List String) (candidates : List Candidate) :
    distinct seen candidates = List.firstsBy descriptorText seen candidates := by
  induction candidates generalizing seen with
  | nil => rfl
  | cons first rest ih =>
    rw [distinct, List.firstsBy_cons]
    simp only [List.contains_iff_mem, ih]
    rfl

/-- Declarations of classes that were met add nothing, since they were met too. -/
theorem firstsBy_flatMap {met : List String} (apart : LinkedClass.NamesApart classes)
    (known : ∀ c ∈ classes, c.name ∈ met → ∀ x ∈ declaredIn c test, x.descriptorText ∈ seen) :
    List.firstsBy descriptorText seen
        ((List.firstsBy LinkedClass.name met classes).flatMap (declaredIn · test)) =
      List.firstsBy descriptorText seen (classes.flatMap (declaredIn · test)) := by
  induction classes generalizing met seen with
  | nil => rfl
  | cons c rest ih =>
    have restApart : LinkedClass.NamesApart rest := apart.mono fun d => List.mem_cons_of_mem c
    rw [List.flatMap_cons, List.firstsBy_append, List.firstsBy_cons]
    split
    · next again =>
      have declared := known c List.mem_cons_self again
      have same (k : String) : k ∈ (declaredIn c test).map descriptorText ++ seen ↔ k ∈ seen := by
        rw [List.mem_append, or_iff_right_of_imp]
        intro member
        obtain ⟨x, inside, rfl⟩ := List.mem_map.mp member
        exact declared x inside
      rw [List.firstsBy_eq_nil declared, List.nil_append, List.firstsBy_congr same]
      exact ih restApart fun d member => known d (List.mem_cons_of_mem _ member)
    · rw [List.flatMap_cons, List.firstsBy_append, ih restApart]
      intro d member named x declared
      rw [List.mem_append]
      rcases List.mem_cons.mp named with same | named
      · have equal : d = c :=
          apart d (List.mem_cons_of_mem _ member) c List.mem_cons_self same
        exact .inl (List.mem_map_of_mem (equal ▸ declared))
      · exact .inr (known d (List.mem_cons_of_mem _ member) named x declared)

variable (c name static) in
/-- The methods of a name and a kind that a class and what is above it declare, in the order of the
classes. -/
def declarations : List Candidate :=
  c.preorder.flatMap (declaredIn · fun method => method.name == name && method.isStatic == static)

/-- **Of the declarations with one descriptor the first one may be called.** -/
theorem all_eq (apart : LinkedClass.NamesApart c.preorder) :
    all c name static = List.firstsBy descriptorText [] (declarations c name static) := by
  rw [all, LinkedClass.lineage_eq apart, distinct_eq]
  exact firstsBy_flatMap apart fun _ _ met => (List.not_mem_nil met).elim

/-! ## A list of the classes to visit -/

/-- A search for methods that keeps a list of the classes that are to be visited, the next one first,
and notes the names of those it has visited and the descriptors that it has seen. -/
def search (test : Method → Bool) : (pending : List LinkedClass) → (visited seen : List String) →
    List Candidate
  | [], _, _ => []
  | c :: pending, visited, seen =>
    if c.name ∈ visited then search test pending visited seen
    else
      let found := distinct seen (declaredIn c test)
      found ++ search test (c.parents ++ pending) (visited ++ [c.name])
        (found.map descriptorText ++ seen)
termination_by pending => (pending.map sizeOf).sum
decreasing_by
  · have positive : 0 < sizeOf c := Nat.zero_lt_of_lt c.sum_sizeOf_parents_lt
    rw [List.map_cons, List.sum_cons]
    omega
  · have less := c.sum_sizeOf_parents_lt
    rw [List.map_append, List.sum_append, List.map_cons, List.sum_cons]
    omega

theorem exists_search_eq (test : Method → Bool) (pending visited : List LinkedClass)
    (seen : List String) : ∃ met, LinkedClass.lineageOf visited pending = visited ++ met ∧
      search test pending (visited.map LinkedClass.name) seen =
        distinct seen (met.flatMap (declaredIn · test)) := by
  generalize named : visited.map LinkedClass.name = names
  induction pending, names, seen using search.induct test generalizing visited with
  | case1 names seen =>
    rw [search]
    exact ⟨[], (List.append_nil visited).symm, rfl⟩
  | case2 c pending names seen again ih =>
    obtain ⟨met, visits, found⟩ := ih visited named
    have skips : c.lineageFrom visited = visited := by
      rw [LinkedClass.lineageFrom_eq, if_pos (named ▸ again)]
    rw [search, if_pos again]
    exact ⟨met, (congrArg (LinkedClass.lineageOf · pending) skips).trans visits, found⟩
  | case3 c pending names seen new found ih =>
    have extended : (visited ++ [c]).map LinkedClass.name = names ++ [c.name] := by
      rw [List.map_append, named]
      rfl
    obtain ⟨met, visits, finds⟩ := ih (visited ++ [c]) extended
    have enters : c.lineageFrom visited = LinkedClass.lineageOf (visited ++ [c]) c.parents := by
      rw [LinkedClass.lineageFrom_eq, if_neg (named ▸ new)]
    refine ⟨c :: met, ?_, ?_⟩
    · have first : LinkedClass.lineageOf visited (c :: pending) =
          LinkedClass.lineageOf (c.lineageFrom visited) pending := rfl
      rw [first, enters, ← LinkedClass.lineageOf_append, visits, List.append_assoc]
      rfl
    · have isFound : found = List.firstsBy descriptorText seen (declaredIn c test) :=
        distinct_eq seen _
      have seenBy (k : String) : k ∈ found.map descriptorText ++ seen ↔
          k ∈ (declaredIn c test).map descriptorText ++ seen := by
        rw [List.mem_append, List.mem_append, isFound, List.mem_map_firstsBy_iff]
        tauto
      rw [search, if_neg new]
      change found ++ search test (c.parents ++ pending) _ _ = _
      rw [finds, distinct_eq, distinct_eq, List.firstsBy_congr seenBy, List.flatMap_cons,
        List.firstsBy_append, isFound]

/-- **Both searches find the same.** -/
theorem search_eq_all (c : LinkedClass) (name : String) (static : Bool) :
    search (fun method => method.name == name && method.isStatic == static) [c] [] [] =
      all c name static := by
  obtain ⟨met, visits, found⟩ := exists_search_eq
    (fun method => method.name == name && method.isStatic == static) [c] [] []
  have same : c.lineage = met := visits
  rw [all, same]
  exact found

end Candidate

namespace Loader.Defines

variable {sources : List ClassSource} {c d : LinkedClass}

theorem defined_of_mem_preorder (defined : Defines sources c) (member : d ∈ c.preorder) :
    Defines sources d := by
  have path := LinkedClass.mem_preorder_iff.mp member
  clear member
  induction path with
  | refl => exact defined
  | tail _ parent ih => exact ih.linksTo_defined (.of_mem_parents parent)

/-- What is above a class that the sources define is told apart by names. -/
theorem namesApart (defined : Defines sources c) : LinkedClass.NamesApart c.preorder :=
  fun _ member _ member' same => (defined.defined_of_mem_preorder member).eq_of_name_eq
    (defined.defined_of_mem_preorder member') same

end Loader.Defines

end JavaMachine
