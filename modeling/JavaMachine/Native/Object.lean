import JavaMachine.Native.Basic

/-! # Native methods of objects and throwables -/

namespace JavaMachine.Native

/-- A constructor that does nothing. -/
def construct : NativeFunction := fun _ => return none

namespace ObjectMethods

/-- A number that is the object's own for as long as the machine runs. -/
def identityHash (ref : Ref) : Int32 :=
  Int32.ofNat (ref + 1)

def hashCode : NativeFunction := fun call => do
  return some (.int (identityHash (← call.receiver)))

/-- Whether the receiver and the argument are the same object. -/
def equals : NativeFunction := fun call => do
  let receiver ← call.receiver
  let other ← call.reference 1
  return some (.ofBool (other == some receiver))

/-- The lower-case hexadecimal digits of an int taken as unsigned. -/
def hexadecimal (value : Int32) : String :=
  String.ofList (Nat.toDigits 16 value.toUInt32.toNat)

/-- The name of the class and the hash code. -/
def toText : NativeFunction := fun call => do
  let receiver ← call.receiver
  let hash ← match ← Exec.invokeVirtual receiver "hashCode" "()I" [] with
    | some (.int hash) => pure hash
    | _ => pure (identityHash receiver)
  let object ← Exec.object receiver
  Exec.returnText (ClassName.dotted object.className ++ "@" ++ hexadecimal hash)

def table : NativeTable := [
  (⟨ClassName.object, MemberName.constructor, "()V"⟩, construct),
  (⟨ClassName.object, "hashCode", "()I"⟩, hashCode),
  (⟨ClassName.object, "equals", "(Ljava/lang/Object;)Z"⟩, equals),
  (⟨ClassName.object, "toString", "()Ljava/lang/String;"⟩, toText)]

end ObjectMethods

namespace ThrowableMethods

/-- The slot of the message of a throwable. -/
def messageSlot (ref : Ref) : Exec Nat := do
  let c := (← Exec.object ref).type
  match c.instanceField? MemberName.detailMessage with
  | some field => return field.slot
  | none => Exec.fail (.noSuchField c.name MemberName.detailMessage)

/-- A constructor that sets the message. -/
def constructWithMessage : NativeFunction := fun call => do
  let receiver ← call.receiver
  let message ← call.reference 1
  Exec.putField receiver (← messageSlot receiver) (.reference message)
  return none

def getMessage : NativeFunction := fun call => do
  let receiver ← call.receiver
  return some (← Exec.getField receiver (← messageSlot receiver))

/-- The name of the class, and the message if there is one. -/
def toText : NativeFunction := fun call => do
  let receiver ← call.receiver
  let name := ClassName.dotted (← Exec.object receiver).className
  match ← Exec.getField receiver (← messageSlot receiver) with
  | .reference (some message) =>
    let detail := (← Exec.object message).text?.getD ""
    Exec.returnText (name ++ ": " ++ detail)
  | _ => Exec.returnText name

def table : NativeTable := [
  (⟨ClassName.throwable, MemberName.constructor, "()V"⟩, construct),
  (⟨ClassName.throwable, MemberName.constructor, "(Ljava/lang/String;)V"⟩, constructWithMessage),
  (⟨ClassName.throwable, "getMessage", "()Ljava/lang/String;"⟩, getMessage),
  (⟨ClassName.throwable, "toString", "()Ljava/lang/String;"⟩, toText)]

end ThrowableMethods

end JavaMachine.Native
