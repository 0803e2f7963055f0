/-! # Type descriptors

The types of fields and the signatures of methods, with the compact text in which class files
spell them: `I` is an int, `[Ljava/lang/String;` an array of strings, `(IJ)V` a method taking an
int and a long and returning nothing. Reading accepts exactly what writing produces. -/

namespace JavaMachine

/-- The type of a field, a parameter, a result or an array component. -/
inductive FieldType where
  | byte
  | char
  | double
  | float
  | int
  | long
  | object (name : String)
  | short
  | boolean
  | array (component : FieldType)
  deriving DecidableEq, Inhabited

namespace FieldType

/-- Longs and doubles take two local or stack slots. -/
def isWide : FieldType → Bool
  | long | double => true
  | _ => false

/-- Objects and arrays are held by reference. -/
def isReference : FieldType → Bool
  | object _ | array _ => true
  | _ => false

/-- The number of local or stack slots a value of this type takes. -/
def slots (type : FieldType) : Nat :=
  if type.isWide then 2 else 1

/-- The characters of the descriptor of a type. -/
def write : FieldType → List Char
  | byte => ['B']
  | char => ['C']
  | double => ['D']
  | float => ['F']
  | int => ['I']
  | long => ['J']
  | short => ['S']
  | boolean => ['Z']
  | object name => 'L' :: (name.toList ++ [';'])
  | array component => '[' :: component.write

/-- The descriptor of a type. -/
def descriptor (type : FieldType) : String :=
  String.ofList type.write

/-- The name a class loader knows the type by: the class name of an object type, the descriptor
of an array or a primitive. -/
def className : FieldType → String
  | object name => name
  | other => other.descriptor

/-- Splits a text at the first semicolon; there must be one, with something before it. -/
def readName : List Char → Option (String × List Char)
  | [] => none
  | text =>
    match text.span (· != ';') with
    | ([], _) => none
    | (_, []) => none
    | (name, _ :: rest) => some (String.ofList name, rest)

/-- Reads one type from the front of a text and returns what follows it. -/
def read : List Char → Option (FieldType × List Char)
  | 'B' :: rest => some (byte, rest)
  | 'C' :: rest => some (char, rest)
  | 'D' :: rest => some (double, rest)
  | 'F' :: rest => some (float, rest)
  | 'I' :: rest => some (int, rest)
  | 'J' :: rest => some (long, rest)
  | 'S' :: rest => some (short, rest)
  | 'Z' :: rest => some (boolean, rest)
  | 'L' :: rest => (readName rest).map fun (name, after) => (object name, after)
  | '[' :: rest => (read rest).map fun (component, after) => (array component, after)
  | _ => none

/-- The type a complete descriptor spells. -/
def ofDescriptor? (text : String) : Option FieldType :=
  match read text.toList with
  | some (type, []) => some type
  | _ => none

/-- Reads types from the front of a text for as long as there are any, at most `fuel` of them. -/
def readMany : (fuel : Nat) → List Char → List FieldType × List Char
  | 0, text => ([], text)
  | fuel + 1, text =>
    match read text with
    | none => ([], text)
    | some (type, after) =>
      let (types, rest) := readMany fuel after
      (type :: types, rest)

end FieldType

/-- The parameter types of a method and the type it returns, if it returns a value. -/
structure MethodDescriptor where
  parameters : List FieldType
  returnType : Option FieldType
  deriving DecidableEq, Inhabited

namespace MethodDescriptor

/-- The local slots the parameters take, without the receiver. -/
def parameterSlots (method : MethodDescriptor) : Nat :=
  method.parameters.foldr (fun type slots => type.slots + slots) 0

/-- The characters of a result: the type's own, or `V` for no result. -/
def writeReturn : Option FieldType → List Char
  | some type => type.write
  | none => ['V']

/-- The characters of a method descriptor. -/
def write (method : MethodDescriptor) : List Char :=
  '(' :: (method.parameters.flatMap FieldType.write ++ ')' :: writeReturn method.returnType)

/-- The descriptor of a method. -/
def descriptor (method : MethodDescriptor) : String :=
  String.ofList method.write

/-- Reads a complete result. -/
def readReturn (text : List Char) : Option (Option FieldType) :=
  match text with
  | ['V'] => some none
  | text =>
    match FieldType.read text with
    | some (type, []) => some (some type)
    | _ => none

/-- The signature a complete method descriptor spells. Every type takes at least one character,
so the length of the text bounds the number of parameters. -/
def ofDescriptor? (text : String) : Option MethodDescriptor :=
  match text.toList with
  | '(' :: inside =>
    match FieldType.readMany inside.length inside with
    | (parameters, ')' :: result) => (readReturn result).map (⟨parameters, ·⟩)
    | _ => none
  | _ => none

end MethodDescriptor

end JavaMachine
