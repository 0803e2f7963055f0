import JavaMachine.Assembler.Class
import JavaMachine.Native.Table
import JavaMachine.Source.Basic

/-! # Built-in classes

The classes that every machine has, assembled like any other: `java/lang/Object`, strings, the
system and its print streams, and the throwables that the machine itself makes. -/

namespace JavaMachine.Builtin

/-- Public, private, static and final members, by their access flags. -/
def isPublic : AccessFlags := ⟨0x0001⟩
def publicStatic : AccessFlags := ⟨0x0009⟩
def publicStaticFinal : AccessFlags := ⟨0x0019⟩
def privateOnly : AccessFlags := ⟨0x0002⟩
def privateFinal : AccessFlags := ⟨0x0012⟩
def staticOnly : AccessFlags := ⟨0x0008⟩

/-- The flags of a class that cannot be extended. -/
def finalClass : AccessFlags := ⟨0x0031⟩

/-- A public method of the host. -/
def native (name descriptor : String) : ClassItem :=
  .nativeMethod isPublic name descriptor

/-- A public static method of the host. -/
def nativeStatic (name descriptor : String) : ClassItem :=
  .nativeMethod publicStatic name descriptor

/-- The descriptor of a constructor that takes a message. -/
def takesMessage : String := "(Ljava/lang/String;)V"

def object : ClassScript where
  name := ClassName.object
  superclass := none
  items := [
    native MemberName.constructor "()V",
    native "hashCode" "()I",
    native "equals" "(Ljava/lang/Object;)Z",
    native "toString" "()Ljava/lang/String;"]

def string : ClassScript where
  name := ClassName.string
  superclass := some ClassName.object
  items := [
    .flags finalClass,
    native MemberName.constructor "()V",
    native "length" "()I",
    native "isEmpty" "()Z",
    native "charAt" "(I)C",
    native "equals" "(Ljava/lang/Object;)Z",
    native "hashCode" "()I",
    native "concat" "(Ljava/lang/String;)Ljava/lang/String;",
    native "toString" "()Ljava/lang/String;",
    nativeStatic "valueOf" "(Ljava/lang/Object;)Ljava/lang/String;",
    nativeStatic "valueOf" "(I)Ljava/lang/String;"]

def system : ClassScript where
  name := ClassName.system
  superclass := some ClassName.object
  items := [
    .flags finalClass,
    .field publicStaticFinal "out" "Ljava/io/PrintStream;",
    .field publicStaticFinal "err" "Ljava/io/PrintStream;",
    .nativeMethod staticOnly MemberName.staticInitializer "()V",
    nativeStatic "arraycopy" "(Ljava/lang/Object;ILjava/lang/Object;II)V",
    nativeStatic "identityHashCode" "(Ljava/lang/Object;)I",
    nativeStatic "currentTimeMillis" "()J",
    nativeStatic "nanoTime" "()J"]

def printStream : ClassScript where
  name := ClassName.printStream
  superclass := some ClassName.object
  items :=
    .field privateFinal MemberName.fileNumber "I" ::
    native "println" "()V" ::
    Native.StreamMethods.Printable.all.flatMap fun kind =>
      [native "print" kind.descriptor, native "println" kind.descriptor]

def throwable : ClassScript where
  name := ClassName.throwable
  superclass := some ClassName.object
  items := [
    .field privateOnly MemberName.detailMessage "Ljava/lang/String;",
    native MemberName.constructor "()V",
    native MemberName.constructor takesMessage,
    native "getMessage" "()Ljava/lang/String;",
    native "toString" "()Ljava/lang/String;"]

/-- A throwable whose two constructors leave everything to those of its superclass. -/
def throwableBelow (name superclass : String) : ClassScript where
  name
  superclass := some superclass
  items := [
    .method isPublic MemberName.constructor "()V" 0 [
      .load .reference 0,
      .call .special superclass MemberName.constructor "()V",
      .plain Opcode.returnVoid.byte],
    .method isPublic MemberName.constructor takesMessage 0 [
      .load .reference 0,
      .load .reference 1,
      .call .special superclass MemberName.constructor takesMessage,
      .plain Opcode.returnVoid.byte]]

/-- The further throwables, each with its superclass. -/
def throwables : List (String × String) := [
  (ClassName.exception, ClassName.throwable),
  (ClassName.error, ClassName.throwable),
  (ClassName.virtualMachineError, ClassName.error),
  (ClassName.outOfMemoryError, ClassName.virtualMachineError),
  (ClassName.runtimeException, ClassName.exception),
  (ClassName.arithmeticException, ClassName.runtimeException),
  (ClassName.nullPointerException, ClassName.runtimeException),
  (ClassName.indexOutOfBoundsException, ClassName.runtimeException),
  (ClassName.arrayIndexOutOfBoundsException, ClassName.indexOutOfBoundsException),
  (ClassName.stringIndexOutOfBoundsException, ClassName.indexOutOfBoundsException),
  (ClassName.negativeArraySizeException, ClassName.runtimeException),
  (ClassName.classCastException, ClassName.runtimeException),
  (ClassName.arrayStoreException, ClassName.runtimeException),
  (ClassName.illegalArgumentException, ClassName.runtimeException)]

/-- The descriptions of all built-in classes. -/
def scripts : List ClassScript :=
  [object, string, system, printStream, throwable]
    ++ throwables.map fun (name, superclass) => throwableBelow name superclass

/-- The class file of a script. -/
def fileOf (script : ClassScript) : Except Error (String × List UInt8) :=
  match script.assemble with
  | .ok file => .ok (script.name, file.write)
  | .error fault => .error (.illegalArgument (.assembly fault))

/-- The source that has the built-in classes. -/
def source : Except Error ClassSource := do
  return .ofClasses (← scripts.mapM fileOf)

end JavaMachine.Builtin
