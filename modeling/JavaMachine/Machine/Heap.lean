import JavaMachine.Class.Basic
import JavaMachine.Value

/-! # The heap

Objects are instances with fields, arrays, or strings with their text. An object keeps its class,
its kind and the number of its slots for ever; only the content of slots changes, and nothing is
ever removed. -/

namespace JavaMachine

/-- What an object holds. -/
inductive Body where
  | fields (slots : Array Value)
  | elements (component : FieldType) (slots : Array Value)
  | text (content : String)
  deriving DecidableEq, Inhabited

/-- An object on the heap. -/
structure HeapObject where
  type : LinkedClass
  body : Body
  deriving Inhabited

namespace HeapObject

/-- The name of an object's class. -/
def className (object : HeapObject) : String :=
  object.type.name

/-- The text of a string. -/
def text? (object : HeapObject) : Option String :=
  match object.body with
  | .text content => some content
  | _ => none

/-- The field in a slot. -/
def field? (object : HeapObject) (slot : Nat) : Option Value :=
  match object.body with
  | .fields slots => slots[slot]?
  | _ => none

/-- The type of the elements and the elements, if the object is an array. -/
def array? (object : HeapObject) : Option (FieldType × Array Value) :=
  match object.body with
  | .elements component slots => some (component, slots)
  | _ => none

/-- The number of elements of an array. -/
def length? (object : HeapObject) : Option Nat :=
  object.array?.map (·.2.size)

/-- The element of an array at an index. -/
def element? (object : HeapObject) (index : Int) : Option Value :=
  match object.array?, index with
  | some (_, slots), .ofNat position => slots[position]?
  | _, _ => none

/-- A new instance of a class, with zeros in its fields; a string starts empty. -/
def ofClass (type : LinkedClass) : HeapObject :=
  if type.name == ClassName.string then ⟨type, .text ""⟩
  else ⟨type, .fields (type.instanceFields.map fun field => .zero field.type).toArray⟩

/-- An array with given elements. -/
def ofElements (type : LinkedClass) (component : FieldType) (elements : Array Value) :
    HeapObject :=
  ⟨type, .elements component elements⟩

/-- An object with a slot changed, if it has that slot. -/
def set (object : HeapObject) (slot : Nat) (value : Value) : HeapObject :=
  let ⟨type, body⟩ := object
  match body with
  | .fields slots => ⟨type, .fields (slots.setIfInBounds slot value)⟩
  | .elements component slots => ⟨type, .elements component (slots.setIfInBounds slot value)⟩
  | .text content => ⟨type, .text content⟩

end HeapObject

/-- The objects by reference. -/
structure Heap where
  objects : Array HeapObject := #[]
  deriving Inhabited

namespace Heap

/-- The object of a reference. Every reference that exists was given out by `add`. -/
def get (heap : Heap) (ref : Ref) : HeapObject :=
  heap.objects.getD ref default

/-- Adds an object; its reference is fresh. -/
def add (heap : Heap) (object : HeapObject) : Ref × Heap :=
  (heap.objects.size, ⟨heap.objects.push object⟩)

/-- Changes a slot of an object. -/
def set (heap : Heap) (ref : Ref) (slot : Nat) (value : Value) : Heap :=
  ⟨heap.objects.modify ref (·.set slot value)⟩

end Heap

end JavaMachine
