import JavaMachine.Native.Object
import JavaMachine.Utf16

/-! # Native methods of strings

Lengths and positions count the UTF-16 units of the text. -/

namespace JavaMachine.Native.TextMethods

/-- The text of the receiver, which must be a string. -/
def receiverText (call : NativeCall) : Exec String := do
  let object ← Exec.object (← call.receiver)
  match object.text? with
  | some text => return text
  | none => Exec.fail (.virtualMachine (.notString object.className))

def length : NativeFunction := fun call => do
  return some (.int (Int32.ofNat (Utf16.units (← receiverText call)).length))

def isEmpty : NativeFunction := fun call => do
  return some (.ofBool (← receiverText call).isEmpty)

/-- The unit of a text at an index. -/
def unitAt? (text : String) (index : Int32) : Option UInt16 :=
  if 0 ≤ index then (Utf16.units text)[index.toInt.toNat]? else none

def charAt : NativeFunction := fun call => do
  let text ← receiverText call
  let index ← call.int 1
  match unitAt? text index with
  | some unit => return some (.int unit.toUInt32.toInt32)
  | none =>
    Exec.throwIndex ClassName.stringIndexOutOfBoundsException index (Utf16.units text).length

def equals : NativeFunction := fun call => do
  let text ← receiverText call
  match ← call.reference 1 with
  | none => return some (.ofBool false)
  | some other => return some (.ofBool ((← Exec.object other).text? == some text))

def hashCode : NativeFunction := fun call => do
  return some (.int (Utf16.hash (Utf16.units (← receiverText call))))

/-- The receiver itself if there is nothing to add. -/
def concat : NativeFunction := fun call => do
  let receiver ← call.receiver
  let text ← receiverText call
  match ← call.text 1 with
  | none => Exec.throwNew ClassName.nullPointerException none
  | some other =>
    if other.isEmpty then return some (.reference (some receiver))
    else Exec.returnText (text ++ other)

def toText : NativeFunction := fun call => do
  return some (.reference (some (← call.receiver)))

def valueOfObject : NativeFunction := fun call => do
  Exec.returnText (← Exec.textOf (← call.reference 0))

def valueOfInt : NativeFunction := fun call => do
  Exec.returnText (toString (← call.int 0).toInt)

def table : NativeTable := [
  (⟨ClassName.string, MemberName.constructor, "()V"⟩, construct),
  (⟨ClassName.string, "length", "()I"⟩, length),
  (⟨ClassName.string, "isEmpty", "()Z"⟩, isEmpty),
  (⟨ClassName.string, "charAt", "(I)C"⟩, charAt),
  (⟨ClassName.string, "equals", "(Ljava/lang/Object;)Z"⟩, equals),
  (⟨ClassName.string, "hashCode", "()I"⟩, hashCode),
  (⟨ClassName.string, "concat", "(Ljava/lang/String;)Ljava/lang/String;"⟩, concat),
  (⟨ClassName.string, "toString", "()Ljava/lang/String;"⟩, toText),
  (⟨ClassName.string, "valueOf", "(Ljava/lang/Object;)Ljava/lang/String;"⟩, valueOfObject),
  (⟨ClassName.string, "valueOf", "(I)Ljava/lang/String;"⟩, valueOfInt)]

end JavaMachine.Native.TextMethods
