import JavaMachine.Class.Basic

/-! # Method tables

Every class has a flat table of the methods that can be selected on it, by name and descriptor. It
is made from the tables of the superclass and the interfaces: what the class declares comes first,
then what it inherits, then what its interfaces offer. A key occurs once. -/

namespace JavaMachine

/-- A table of methods by key. -/
abbrev MethodTable := List (String × MethodEntry LinkedClass)

namespace LinkedClass

/-- The class that an entry of its table points into. -/
def ownerOf (c : LinkedClass) (entry : MethodEntry LinkedClass) : LinkedClass :=
  entry.owner.getD c

/-- The method that a key selects on a class: its owner and its index there. -/
def findMethod? (c : LinkedClass) (key : String) : Option (LinkedClass × Nat) :=
  (c.table.lookup key).map fun entry => (c.ownerOf entry, entry.index)

/-- The entries of a class as a class below it sees them, those whose method passes a test. -/
def passOn (c : LinkedClass) (passes : Method → Bool) : MethodTable :=
  c.table.filterMap fun (key, entry) =>
    let owner := c.ownerOf entry
    if (owner.method? entry.index).any passes then some (key, ⟨some owner, entry.index⟩) else none

end LinkedClass

namespace MethodTable

/-- Whether a key is in a table. -/
def has (table : MethodTable) (key : String) : Bool :=
  table.any (·.1 == key)

/-- The methods that a class declares; of equal keys the last one counts. -/
def ofMethods (methods : Array Method) : MethodTable :=
  methods.toList.zipIdx.foldl
    (fun table (method, index) =>
      (method.key, ⟨none, index⟩) :: table.filter (·.1 != method.key)) []

/-- A table with the entries of another one for the keys it does not have. -/
def fill (table extra : MethodTable) : MethodTable :=
  table ++ extra.filter fun (key, _) => !table.has key

/-- Constructors, initializers and private methods are not inherited from a superclass. -/
def inheritable (method : Method) : Bool :=
  !(method.isPrivate || method.name == MemberName.constructor
    || method.name == MemberName.staticInitializer)

/-- Static and private methods and initializers are not offered by an interface. -/
def offered (method : Method) : Bool :=
  !(method.isStatic || method.isPrivate || method.name == MemberName.staticInitializer)

/-- The table of a class. -/
def build (methods : Array Method) (superclass : Option LinkedClass)
    (interfaces : List LinkedClass) : MethodTable :=
  let inherited := (superclass.map (·.passOn inheritable)).getD []
  interfaces.foldl (fun table interface => table.fill (interface.passOn offered))
    ((ofMethods methods).fill inherited)

end MethodTable

end JavaMachine
