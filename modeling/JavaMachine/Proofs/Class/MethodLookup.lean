import JavaMachine.Class.MethodTable
import Mathlib

/-! # Method tables answer like the search through the ancestors

The method that a key selects on a class can be searched for from class to class: among the
methods the class declares, then in its superclass, then in its interfaces. A table made from the
tables of the superclass and the interfaces has an entry exactly for the keys that such a search
finds, and the entry points to the method that the search finds. -/

namespace JavaMachine

/-! ## The search -/

namespace Method

/-- A method that a class hands down to the classes that extend it. -/
def IsInherited (method : Method) : Prop :=
  method.isPrivate = false ∧ method.name ≠ "<init>" ∧ method.name ≠ "<clinit>"

/-- A method that an interface offers to the classes that implement it. -/
def IsOffered (method : Method) : Prop :=
  method.isStatic = false ∧ method.isPrivate = false ∧ method.name ≠ "<clinit>"

instance : DecidablePred IsInherited := fun _ => instDecidableAnd

instance : DecidablePred IsOffered := fun _ => instDecidableAnd

theorem inheritable_eq (method : Method) :
    MethodTable.inheritable method = decide method.IsInherited := by
  rw [Bool.eq_iff_iff, decide_eq_true_iff]
  simp [MethodTable.inheritable, IsInherited, MemberName.constructor,
    MemberName.staticInitializer, and_assoc]

theorem offered_eq (method : Method) : MethodTable.offered method = decide method.IsOffered := by
  rw [Bool.eq_iff_iff, decide_eq_true_iff]
  simp [MethodTable.offered, IsOffered, MemberName.staticInitializer, and_assoc]

end Method

namespace LinkedClass

/-- The index of the last method that a class declares with a key. -/
def lastDeclared? (methods : Array Method) (key : String) : Option Nat :=
  (List.range methods.size).reverse.find? fun index => methods[index]?.any (·.key == key)

/-- Whether the method that was found passes a test. -/
def finds (passes : Method → Bool) (found : LinkedClass × Nat) : Bool :=
  (found.1.method? found.2).any passes

/-- The method that a key selects on a class, searched for from class to class: its owner and its
index there. -/
def select? (key : String) : LinkedClass → Option (LinkedClass × Nat)
  | mk info superclass interfaces element table =>
    match lastDeclared? info.methods key with
    | some index => some (mk info superclass interfaces element table, index)
    | none => inSuperclass superclass <|> inInterfaces interfaces
where
  inSuperclass : Option LinkedClass → Option (LinkedClass × Nat)
    | none => none
    | some superclass => (select? key superclass).filter (finds (decide ·.IsInherited))
  inInterfaces : List LinkedClass → Option (LinkedClass × Nat)
    | [] => none
    | first :: rest => (select? key first).filter (finds (decide ·.IsOffered)) <|> inInterfaces rest

/-- A class whose own table and whose ancestors' tables are made from what each of them declares
and from the tables above it. -/
inductive TablesBuilt : LinkedClass → Prop where
  | mk {info : ClassInfo} {superclass : Option LinkedClass} {interfaces : List LinkedClass}
      {element : Option LinkedClass}
      (superclassBuilt : ∀ c ∈ superclass, TablesBuilt c)
      (interfacesBuilt : ∀ c ∈ interfaces, TablesBuilt c)
      (elementBuilt : ∀ c ∈ element, TablesBuilt c) :
      TablesBuilt (.mk info superclass interfaces element
        (MethodTable.build info.methods superclass interfaces))

end LinkedClass

/-! ## Tables as lists -/

namespace MethodTable

variable {table extra : MethodTable} {key : String}

/-- The keys of a table, each of which stands for one method. -/
def keys (table : MethodTable) : List String :=
  table.map (·.1)

theorem has_eq_isSome : table.has key = (table.lookup key).isSome := by
  induction table with
  | nil => rfl
  | cons entry rest ih =>
    obtain ⟨first, entry⟩ := entry
    rw [has, List.any_cons, List.lookup_cons, ← has, ih, BEq.comm]
    cases key == first <;> rfl

theorem lookup_eq_none_of_not_mem (absent : key ∉ table.keys) : table.lookup key = none := by
  rw [List.lookup_eq_none_iff]
  intro entry member
  rw [bne_iff_ne]
  rintro rfl
  exact absent (List.mem_map_of_mem member)

/-- Entries chosen by their keys alone are found under these keys as before. -/
theorem lookup_filter_key (chosen : String → Bool) :
    (table.filter fun (key, _) => chosen key).lookup key =
      if chosen key then table.lookup key else none := by
  induction table with
  | nil => exact (ite_self _).symm
  | cons entry rest ih =>
    obtain ⟨first, entry⟩ := entry
    rw [List.filter_cons, List.lookup_cons]
    cases same : key == first with
    | true =>
      obtain rfl := eq_of_beq same
      cases kept : chosen key with
      | true => simp [kept]
      | false => simpa [kept] using ih
    | false =>
      cases kept : chosen first with
      | true => simpa [List.lookup_cons, same, kept] using ih
      | false => simpa [kept] using ih

/-- The entries that are kept and changed are found as they were if no key occurs twice. -/
theorem lookup_filterMap (keep : MethodEntry LinkedClass → Bool)
    (change : MethodEntry LinkedClass → MethodEntry LinkedClass) (distinct : table.keys.Nodup) :
    (table.filterMap fun (key, entry) =>
        if keep entry then some (key, change entry) else none).lookup key =
      ((table.lookup key).filter keep).map change := by
  induction table with
  | nil => rfl
  | cons entry rest ih =>
    obtain ⟨first, entry⟩ := entry
    obtain ⟨fresh, distinct⟩ := List.nodup_cons.mp distinct
    specialize ih distinct
    rw [List.filterMap_cons, List.lookup_cons]
    cases same : key == first with
    | true =>
      obtain rfl := eq_of_beq same
      cases kept : keep entry with
      | true => simp [kept, Option.filter]
      | false =>
        rw [lookup_eq_none_of_not_mem fresh] at ih
        simp only [kept, Bool.false_eq_true, ↓reduceIte, ih, Option.filter]
    | false =>
      cases kept : keep entry with
      | true => simpa [List.lookup_cons, same, kept] using ih
      | false => simpa [kept] using ih

/-- What a table has comes before what it is filled with. -/
theorem lookup_fill : (table.fill extra).lookup key = (table.lookup key).or (extra.lookup key) := by
  rw [fill, List.lookup_append, lookup_filter_key (!table.has ·), has_eq_isSome]
  cases table.lookup key <;> rfl

theorem nodup_keys_fill (distinct : table.keys.Nodup) (distinctExtra : extra.keys.Nodup) :
    (table.fill extra).keys.Nodup := by
  rw [fill, keys, List.map_append]
  refine List.nodup_append.mpr
    ⟨distinct, distinctExtra.sublist (List.filter_sublist.map _), ?_⟩
  rintro key inTable _ inExtra rfl
  obtain ⟨entry, member, rfl⟩ := List.mem_map.mp inExtra
  obtain ⟨found, present, same⟩ := List.mem_map.mp inTable
  have absent := (List.mem_filter.mp member).2
  rw [Bool.not_eq_true', has, List.any_eq_false] at absent
  exact absent found present (beq_iff_eq.mpr same)

end MethodTable

/-! ## What a table is made of -/

namespace MethodTable

open LinkedClass

variable {key : String}

/-- A method that is declared after all others hides those with its key. -/
theorem lastDeclared?_append (before : List Method) (last : Method) :
    lastDeclared? ⟨before ++ [last]⟩ key =
      if key == last.key then some before.length else lastDeclared? ⟨before⟩ key := by
  have found : ((⟨before ++ [last]⟩ : Array Method)[before.length]?.any (·.key == key)) =
      (key == last.key) := by
    simp [BEq.comm]
  have earlier : (List.range before.length).reverse.find? (fun index =>
        (⟨before ++ [last]⟩ : Array Method)[index]?.any (·.key == key)) =
      lastDeclared? ⟨before⟩ key := by
    refine List.find?_congr fun index member => ?_
    have inside := List.mem_range.mp (List.mem_reverse.mp member)
    simp [List.getElem?_append_left inside]
  rw [lastDeclared?, List.size_toArray, List.length_append, List.length_singleton,
    List.range_succ, List.reverse_append, List.reverse_singleton, List.singleton_append,
    List.find?_cons, found, earlier]
  cases key == last.key <;> rfl

/-- Of the methods that a class declares with a key the last one is in its table. -/
theorem lookup_ofMethods (methods : Array Method) :
    (ofMethods methods).lookup key =
      (lastDeclared? methods key).map fun index => ⟨none, index⟩ := by
  obtain ⟨methods⟩ := methods
  induction methods using List.reverseRecOn with
  | nil => rfl
  | append_singleton before last ih =>
    have step : ofMethods ⟨before ++ [last]⟩ = (last.key, ⟨none, before.length⟩) ::
        (ofMethods ⟨before⟩).filter fun (key, _) => key != last.key := by
      simp only [ofMethods, List.zipIdx_append, List.foldl_append, Nat.zero_add]
      rfl
    rw [step, List.lookup_cons, lookup_filter_key (· != last.key), ih, lastDeclared?_append]
    cases same : key == last.key with
    | true => rfl
    | false => simp [bne, same]

theorem nodup_keys_ofMethods (methods : Array Method) : (ofMethods methods).keys.Nodup := by
  rw [ofMethods]
  refine List.foldlRecOn (motive := fun table : MethodTable => table.keys.Nodup) _ _
    List.nodup_nil fun table distinct declared _ => ?_
  refine List.nodup_cons.mpr ⟨?_, distinct.sublist (List.filter_sublist.map _)⟩
  intro member
  obtain ⟨entry, kept, same⟩ := List.mem_map.mp member
  exact bne_iff_ne.mp (List.mem_filter.mp kept).2 same

/-- No key occurs twice in the table of a class. -/
def KeysDistinct (c : LinkedClass) : Prop :=
  (keys c.table).Nodup

/-- An entry that points to a method of an ancestor. -/
def pointingTo (found : LinkedClass × Nat) : MethodEntry LinkedClass :=
  ⟨some found.1, found.2⟩

/-- What a class passes on under a key is what the key selects on it, if that passes. -/
theorem lookup_passOn {c : LinkedClass} (distinct : KeysDistinct c)
    (passes : Method → Bool) :
    (c.passOn passes).lookup key =
      ((c.findMethod? key).filter (finds passes)).map pointingTo := by
  rw [passOn, findMethod?, Option.filter_map, Option.map_map]
  exact lookup_filterMap (fun entry => ((c.ownerOf entry).method? entry.index).any passes)
    (fun entry => pointingTo (c.ownerOf entry, entry.index)) distinct

theorem nodup_keys_passOn {c : LinkedClass} (distinct : KeysDistinct c)
    (passes : Method → Bool) : (keys (c.passOn passes)).Nodup := by
  refine List.Nodup.sublist ?_ distinct
  rw [passOn, keys, keys]
  induction c.table with
  | nil => exact List.Sublist.slnil
  | cons entry rest ih =>
    rw [List.filterMap_cons, List.map_cons]
    dsimp only
    cases ((c.ownerOf entry.2).method? entry.2.index).any passes with
    | true => exact ih.cons_cons _
    | false => exact ih.cons _

/-- A table that is filled from several classes has what it had, and else what the first of them
that passes something on passes on. -/
theorem lookup_foldl_fill {interfaces : List LinkedClass} {passes : Method → Bool}
    {table : MethodTable} :
    (interfaces.foldl (fun table interface => table.fill (interface.passOn passes)) table).lookup
        key =
      (table.lookup key).or
        (interfaces.findSome? fun interface => (interface.passOn passes).lookup key) := by
  induction interfaces generalizing table with
  | nil => exact (Option.or_none).symm
  | cons first rest ih =>
    rw [List.foldl_cons, ih, lookup_fill, List.findSome?_cons, Option.or_assoc]
    cases (first.passOn passes).lookup key <;> rfl

/-- A table is looked through in order: what is declared, what is inherited, what is offered. -/
theorem lookup_build {methods : Array Method} {superclass : Option LinkedClass}
    {interfaces : List LinkedClass} :
    (build methods superclass interfaces).lookup key =
      ((lastDeclared? methods key).map fun index => ⟨none, index⟩).or
        ((superclass.bind fun c => (c.passOn inheritable).lookup key).or
          (interfaces.findSome? fun c => (c.passOn offered).lookup key)) := by
  rw [build, lookup_foldl_fill, lookup_fill, lookup_ofMethods, Option.or_assoc]
  cases superclass <;> rfl

theorem nodup_keys_build {methods : Array Method} {superclass : Option LinkedClass}
    {interfaces : List LinkedClass}
    (superclassDistinct : ∀ c ∈ superclass, KeysDistinct c)
    (interfacesDistinct : ∀ c ∈ interfaces, KeysDistinct c) :
    (build methods superclass interfaces).keys.Nodup := by
  have inherited : (keys ((superclass.map (·.passOn inheritable)).getD [])).Nodup := by
    cases superclass with
    | none => exact List.nodup_nil
    | some c => exact nodup_keys_passOn (superclassDistinct c rfl) _
  have start := nodup_keys_fill (nodup_keys_ofMethods methods) inherited
  rw [build]
  generalize (ofMethods methods).fill _ = table at start ⊢
  induction interfaces generalizing table with
  | nil => exact start
  | cons first rest ih =>
    obtain ⟨firstDistinct, restDistinct⟩ := List.forall_mem_cons.mp interfacesDistinct
    exact ih restDistinct _ (nodup_keys_fill start (nodup_keys_passOn firstDistinct _))

end MethodTable

/-! ## The table against the search -/

namespace LinkedClass

variable {key : String}

theorem TablesBuilt.keysDistinct {c : LinkedClass} (built : c.TablesBuilt) :
    MethodTable.KeysDistinct c := by
  induction built with
  | mk _ _ _ superclassDistinct interfacesDistinct _ =>
    exact MethodTable.nodup_keys_build superclassDistinct interfacesDistinct

theorem lookup_inherited {superclass : Option LinkedClass}
    (superclassBuilt : ∀ c ∈ superclass, c.TablesBuilt) :
    (superclass.bind fun above => (above.passOn MethodTable.inheritable).lookup key) =
      (superclass.bind fun above =>
        (above.findMethod? key).filter (finds (decide ·.IsInherited))).map
          MethodTable.pointingTo := by
  cases superclass with
  | none => rfl
  | some above =>
    simp only [Option.bind_some, ← Method.inheritable_eq]
    exact MethodTable.lookup_passOn (superclassBuilt above rfl).keysDistinct _

theorem lookup_offered {interfaces : List LinkedClass}
    (interfacesBuilt : ∀ c ∈ interfaces, c.TablesBuilt) :
    (interfaces.findSome? fun above => (above.passOn MethodTable.offered).lookup key) =
      (interfaces.findSome? fun above =>
        (above.findMethod? key).filter (finds (decide ·.IsOffered))).map
          MethodTable.pointingTo := by
  simp only [← Method.offered_eq]
  induction interfaces with
  | nil => rfl
  | cons first rest ih =>
    obtain ⟨firstBuilt, restBuilt⟩ := List.forall_mem_cons.mp interfacesBuilt
    rw [List.findSome?_cons, List.findSome?_cons, ih restBuilt,
      MethodTable.lookup_passOn firstBuilt.keysDistinct]
    cases (first.findMethod? key).filter (finds MethodTable.offered) <;> rfl

/-- What a key selects on a class with a table made from the tables above it, in terms of what it
selects above. -/
theorem findMethod?_eq {info : ClassInfo} {superclass : Option LinkedClass}
    {interfaces : List LinkedClass} {element : Option LinkedClass}
    (superclassBuilt : ∀ c ∈ superclass, c.TablesBuilt)
    (interfacesBuilt : ∀ c ∈ interfaces, c.TablesBuilt) :
    let c := mk info superclass interfaces element
      (MethodTable.build info.methods superclass interfaces)
    c.findMethod? key = ((lastDeclared? info.methods key).map fun index => (c, index)).or
      ((superclass.bind fun above =>
          (above.findMethod? key).filter (finds (decide ·.IsInherited))).or
        (interfaces.findSome? fun above =>
          (above.findMethod? key).filter (finds (decide ·.IsOffered)))) := by
  intro c
  have target (found : LinkedClass × Nat) :
      (c.ownerOf (MethodTable.pointingTo found), (MethodTable.pointingTo found).index) = found :=
    rfl
  have entries : c.table.lookup key = _ := MethodTable.lookup_build
  rw [findMethod?, entries, lookup_inherited superclassBuilt, lookup_offered interfacesBuilt]
  simp only [Option.map_or, Option.map_map, Function.comp_def, target, Option.map_id']
  rfl

theorem inSuperclass_eq {superclass : Option LinkedClass}
    (agrees : ∀ above ∈ superclass, above.findMethod? key = select? key above) :
    select?.inSuperclass key superclass =
      superclass.bind fun above =>
        (above.findMethod? key).filter (finds (decide ·.IsInherited)) := by
  cases superclass with
  | none => rw [select?.inSuperclass, Option.bind_none]
  | some above => rw [select?.inSuperclass, Option.bind_some, agrees above rfl]

theorem inInterfaces_eq {interfaces : List LinkedClass}
    (agree : ∀ above ∈ interfaces, above.findMethod? key = select? key above) :
    select?.inInterfaces key interfaces =
      interfaces.findSome? fun above =>
        (above.findMethod? key).filter (finds (decide ·.IsOffered)) := by
  induction interfaces with
  | nil => rw [select?.inInterfaces, List.findSome?_nil]
  | cons first rest ih =>
    obtain ⟨firstAgrees, restAgree⟩ := List.forall_mem_cons.mp agree
    rw [select?.inInterfaces, List.findSome?_cons, ih restAgree, firstAgrees]
    cases (select? key first).filter (finds (decide ·.IsOffered)) <;> rfl

/-- A table that is made from the tables above it answers like the search. -/
theorem TablesBuilt.findMethod?_eq_select? {c : LinkedClass} (built : c.TablesBuilt) :
    c.findMethod? key = select? key c := by
  induction built with
  | mk superclassBuilt interfacesBuilt _ superclassAgrees interfacesAgree _ =>
    rw [findMethod?_eq superclassBuilt interfacesBuilt, select?, inSuperclass_eq superclassAgrees,
      inInterfaces_eq interfacesAgree]
    cases lastDeclared? _ key with
    | none => simp only [Option.map_none, Option.none_or, Option.orElse_eq_orElse,
        Option.orElse_eq_or]
    | some index => rfl

theorem lastDeclared?_eq_some {methods : Array Method} {index : Nat}
    (found : lastDeclared? methods key = some index) :
    ∃ inside : index < methods.size, methods[index].key = key := by
  have tested := List.find?_some found
  obtain ⟨method, present, same⟩ := (Option.any_eq_true _ _).mp tested
  obtain ⟨inside, rfl⟩ := Array.getElem?_eq_some_iff.mp present
  exact ⟨inside, beq_iff_eq.mp same⟩

/-- A method that a table points to is there, under the key that selects it. -/
theorem TablesBuilt.key_of_findMethod? {c owner : LinkedClass} {index : Nat}
    (built : c.TablesBuilt) (found : c.findMethod? key = some (owner, index)) :
    ∃ inside : index < owner.methods.size, owner.methods[index].key = key := by
  induction built with
  | mk superclassBuilt interfacesBuilt _ superclassKeys interfacesKeys _ =>
    rw [findMethod?_eq superclassBuilt interfacesBuilt, Option.or_eq_some_iff,
      Option.or_eq_some_iff] at found
    rcases found with declared | ⟨-, inherited | ⟨-, offered⟩⟩
    · obtain ⟨index, last, rfl, rfl⟩ := Option.map_eq_some_iff.mp declared
      exact lastDeclared?_eq_some last
    · obtain ⟨above, member, kept⟩ := Option.bind_eq_some_iff.mp inherited
      exact superclassKeys above member (Option.filter_eq_some_iff.mp kept).1
    · obtain ⟨above, member, kept⟩ := List.exists_of_findSome?_eq_some offered
      exact interfacesKeys above member (Option.filter_eq_some_iff.mp kept).1

end LinkedClass

end JavaMachine
