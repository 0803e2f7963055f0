import JavaMachine.Native.Table
import JavaMachine.Proofs.Machine.Informed

/-! # What is known of what native methods do

The rules for the simplest actions and for sequences lead to the native methods of all built-in
classes, whatever they are called with. How elements are copied from array to array, and that the
standard streams are of the types of their fields, is left to each property to show. -/

namespace JavaMachine

/-- A property of all the native methods of a table, whatever they are called with. -/
def Compositional.OfTable (OfExec : ∀ α : Type, Exec α → Prop) (natives : NativeTable) : Prop :=
  ∀ entry ∈ natives, ∀ call, OfExec _ (entry.2 call)

/-- A property of all the native methods of a table, called as each of them may be under its key. -/
def Serving (allowed : NativeKey → NativeCall → Prop) (OfExec : ∀ α : Type, Exec α → Prop)
    (natives : NativeTable) : Prop :=
  ∀ entry ∈ natives, ∀ call, allowed entry.1 call → OfExec _ (entry.2 call)

/-- A method of a known class is called, under its key. -/
structure Knowledge.Calls (known : Knowledge) (key : NativeKey) (call : NativeCall) : Prop where
  owner : known.Class call.owner
  key : key = ⟨call.owner.name, call.method.name, call.method.descriptorText⟩

section Serving

variable {allowed : NativeKey → NativeCall → Prop} {OfExec : ∀ α : Type, Exec α → Prop}

theorem serving_cons {key : NativeKey} {function : NativeFunction} {rest : NativeTable} :
    Serving allowed OfExec ((key, function) :: rest) ↔
      (∀ call, allowed key call → OfExec _ (function call)) ∧ Serving allowed OfExec rest :=
  List.forall_mem_cons

theorem serving_append {first second : NativeTable} :
    Serving allowed OfExec (first ++ second) ↔
      Serving allowed OfExec first ∧ Serving allowed OfExec second :=
  List.forall_mem_append

theorem Compositional.OfTable.serving {natives : NativeTable}
    (holds : Compositional.OfTable OfExec natives) : Serving allowed OfExec natives :=
  fun entry member call _ => holds entry member call

end Serving

namespace Compositional

variable {OfExec : ∀ α : Type, Exec α → Prop}

theorem ofTable_cons {key : NativeKey} {function : NativeFunction} {rest : NativeTable} :
    OfTable OfExec ((key, function) :: rest) ↔
      (∀ call, OfExec _ (function call)) ∧ OfTable OfExec rest :=
  List.forall_mem_cons

theorem ofTable_append {first second : NativeTable} :
    OfTable OfExec (first ++ second) ↔ OfTable OfExec first ∧ OfTable OfExec second :=
  List.forall_mem_append

end Compositional

namespace Informed

open Compositional (OfTable ofTable_cons ofTable_append)

variable {known : Knowledge} {pool : known.Pool}
  {OfExec : ∀ {α : Type}, (α → Prop) → Exec α → Prop}
  {OfStep : ∀ {α : Type}, (α → Prop) → Step α → Prop} (closed : Informed known pool OfExec OfStep)

include closed

/-! ## Arguments, calls and results -/

theorem call_int (call : NativeCall) (index : Nat) : OfExec anything (call.int index) := by
  unfold NativeCall.int
  split
  · exact closed.exec_pure trivial
  · exact closed.exec_fail _

theorem call_long (call : NativeCall) (index : Nat) : OfExec anything (call.long index) := by
  unfold NativeCall.long
  split
  · exact closed.exec_pure trivial
  · exact closed.exec_fail _

theorem call_float (call : NativeCall) (index : Nat) : OfExec anything (call.float index) := by
  unfold NativeCall.float
  split
  · exact closed.exec_pure trivial
  · exact closed.exec_fail _

theorem call_double (call : NativeCall) (index : Nat) : OfExec anything (call.double index) := by
  unfold NativeCall.double
  split
  · exact closed.exec_pure trivial
  · exact closed.exec_fail _

theorem call_reference (call : NativeCall) (index : Nat) : OfExec anything (call.reference index) := by
  unfold NativeCall.reference
  split
  · exact closed.exec_pure trivial
  · exact closed.exec_fail _

theorem call_receiver (call : NativeCall) : OfExec anything call.receiver := by
  refine closed.exec_bind (closed.call_reference call 0) fun reference _ => ?_
  split
  · exact closed.exec_pure trivial
  · exact closed.exec_fail _

theorem call_text (call : NativeCall) (index : Nat) : OfExec anything (call.text index) := by
  refine closed.exec_bind (closed.call_reference call index) fun reference _ => ?_
  split
  · exact closed.exec_pure trivial
  · refine closed.exec_bind (closed.exec_object _) fun object _ => ?_
    split
    · exact closed.exec_pure trivial
    · exact closed.exec_fail _

theorem exec_invokeVirtual (ref : Ref) {name descriptor : String}
    (callable : known.Key (methodKey name descriptor)) (arguments : List Value) :
    OfExec anything (Exec.invokeVirtual ref name descriptor arguments) := by
  refine closed.exec_bind (closed.exec_object ref) fun object isKnown => ?_
  dsimp only
  split
  · exact closed.exec_fail _
  · next selected => exact closed.exec_invoke (known.found isKnown callable selected) _

theorem exec_invokeStatic (className : String) {name descriptor : String}
    (callable : known.Key (methodKey name descriptor)) (arguments : List Value) :
    OfExec anything (Exec.invokeStatic className name descriptor arguments) := by
  refine closed.exec_bind (closed.exec_load className) fun c loaded => ?_
  refine closed.exec_bind (closed.exec_ensureInitialized (known.ofNamed loaded)) fun _ _ => ?_
  dsimp only
  split
  · exact closed.exec_fail _
  · next index declared =>
    obtain ⟨method, present, keyed⟩ :=
      LinkedClass.exists_of_declaredMethod? (Option.filter_eq_some_iff.mp declared).1
    exact closed.exec_invoke (known.declared (known.ofNamed loaded) present (keyed ▸ callable)) _

theorem exec_textOf (reference : Option Ref) : OfExec anything (Exec.textOf reference) := by
  unfold Exec.textOf
  split
  · exact closed.exec_pure trivial
  · refine closed.exec_bind (closed.exec_object _) fun object _ => ?_
    split
    · exact closed.exec_pure trivial
    · have callable : known.Key (methodKey "toString" "()Ljava/lang/String;") :=
        known.key_of_ne (by decide)
      refine closed.exec_bind (closed.exec_invokeVirtual _ callable _) fun result _ => ?_
      split
      · exact closed.exec_bind (closed.exec_object _) fun _ _ => closed.exec_pure trivial
      · exact closed.exec_pure trivial

theorem exec_returnText (text : String) : OfExec anything (Exec.returnText text) :=
  closed.exec_bind (closed.exec_newString text) fun _ _ => closed.exec_pure trivial

/-! ## Objects and throwables -/

theorem native_construct (call : NativeCall) : OfExec anything (Native.construct call) :=
  closed.exec_pure trivial

section Objects

open Native.ObjectMethods

theorem object_hashCode (call : NativeCall) : OfExec anything (hashCode call) :=
  closed.exec_bind (closed.call_receiver call) fun _ _ => closed.exec_pure trivial

theorem object_equals (call : NativeCall) : OfExec anything (equals call) :=
  closed.exec_bind (closed.call_receiver call) fun _ _ =>
    closed.exec_bind (closed.call_reference call 1) fun _ _ => closed.exec_pure trivial

theorem object_toText (call : NativeCall) : OfExec anything (toText call) := by
  refine closed.exec_bind (closed.call_receiver call) fun receiver _ => ?_
  have callable : known.Key (methodKey "hashCode" "()I") := known.key_of_ne (by decide)
  refine closed.exec_bind (closed.exec_invokeVirtual _ callable _) fun hash _ => ?_
  have rest (hash : Int32) : OfExec anything (do
      let object ← Exec.object receiver
      Exec.returnText (ClassName.dotted object.className ++ "@" ++ hexadecimal hash)) :=
    closed.exec_bind (closed.exec_object receiver) fun _ _ => closed.exec_returnText _
  dsimp only
  split
  · exact rest _
  · exact rest _

end Objects

section Throwables

open Native.ThrowableMethods

theorem throwable_messageSlot (ref : Ref) : OfExec anything (messageSlot ref) := by
  refine closed.exec_bind (closed.exec_object ref) fun object _ => ?_
  dsimp only
  split
  · exact closed.exec_pure trivial
  · exact closed.exec_fail _

theorem throwable_constructWithMessage (call : NativeCall) :
    OfExec anything (constructWithMessage call) :=
  closed.exec_bind (closed.call_receiver call) fun receiver _ =>
    closed.exec_bind (closed.call_reference call 1) fun _ _ =>
      closed.exec_bind (closed.throwable_messageSlot receiver) fun _ _ =>
        closed.exec_bind (closed.exec_putField _ _ _) fun _ _ => closed.exec_pure trivial

theorem throwable_getMessage (call : NativeCall) : OfExec anything (getMessage call) :=
  closed.exec_bind (closed.call_receiver call) fun receiver _ =>
    closed.exec_bind (closed.throwable_messageSlot receiver) fun _ _ =>
      closed.exec_bind (closed.exec_getField _ _) fun _ _ => closed.exec_pure trivial

theorem throwable_toText (call : NativeCall) : OfExec anything (toText call) := by
  refine closed.exec_bind (closed.call_receiver call) fun receiver _ => ?_
  refine closed.exec_bind (closed.exec_object receiver) fun object _ => ?_
  refine closed.exec_bind (closed.throwable_messageSlot receiver) fun slot _ => ?_
  refine closed.exec_bind (closed.exec_getField receiver slot) fun message _ => ?_
  dsimp only
  split
  · exact closed.exec_bind (closed.exec_object _) fun _ _ => closed.exec_returnText _
  · exact closed.exec_returnText _

end Throwables

/-! ## Strings -/

section Strings

open Native.TextMethods

theorem string_receiverText (call : NativeCall) : OfExec anything (receiverText call) := by
  refine closed.exec_bind (closed.call_receiver call) fun receiver _ => ?_
  refine closed.exec_bind (closed.exec_object receiver) fun object _ => ?_
  split
  · exact closed.exec_pure trivial
  · exact closed.exec_fail _

theorem string_length (call : NativeCall) : OfExec anything (length call) :=
  closed.exec_bind (closed.string_receiverText call) fun _ _ => closed.exec_pure trivial

theorem string_isEmpty (call : NativeCall) : OfExec anything (isEmpty call) :=
  closed.exec_bind (closed.string_receiverText call) fun _ _ => closed.exec_pure trivial

theorem string_charAt (call : NativeCall) : OfExec anything (charAt call) := by
  refine closed.exec_bind (closed.string_receiverText call) fun text _ => ?_
  refine closed.exec_bind (closed.call_int call 1) fun index _ => ?_
  split
  · exact closed.exec_pure trivial
  · exact closed.exec_throwIndex _ _ _

theorem string_equals (call : NativeCall) : OfExec anything (equals call) := by
  refine closed.exec_bind (closed.string_receiverText call) fun text _ => ?_
  refine closed.exec_bind (closed.call_reference call 1) fun other _ => ?_
  split
  · exact closed.exec_pure trivial
  · exact closed.exec_bind (closed.exec_object _) fun _ _ => closed.exec_pure trivial

theorem string_hashCode (call : NativeCall) : OfExec anything (hashCode call) :=
  closed.exec_bind (closed.string_receiverText call) fun _ _ => closed.exec_pure trivial

theorem string_concat (call : NativeCall) : OfExec anything (concat call) := by
  refine closed.exec_bind (closed.call_receiver call) fun receiver _ => ?_
  refine closed.exec_bind (closed.string_receiverText call) fun text _ => ?_
  refine closed.exec_bind (closed.call_text call 1) fun other _ => ?_
  split
  · exact closed.exec_throwNew _ _
  · split
    · exact closed.exec_pure trivial
    · exact closed.exec_returnText _

theorem string_toText (call : NativeCall) : OfExec anything (toText call) :=
  closed.exec_bind (closed.call_receiver call) fun _ _ => closed.exec_pure trivial

theorem string_valueOfObject (call : NativeCall) : OfExec anything (valueOfObject call) :=
  closed.exec_bind (closed.call_reference call 0) fun _ _ =>
    closed.exec_bind (closed.exec_textOf _) fun _ _ => closed.exec_returnText _

theorem string_valueOfInt (call : NativeCall) : OfExec anything (valueOfInt call) :=
  closed.exec_bind (closed.call_int call 0) fun _ _ => closed.exec_returnText _

end Strings

/-! ## Print streams -/

section Streams

open Native.StreamMethods

theorem stream_text (kind : Printable) (call : NativeCall) : OfExec anything (kind.text call) := by
  cases kind with
  | boolean | char | int =>
    exact closed.exec_bind (closed.call_int call 1) fun _ _ => closed.exec_pure trivial
  | long => exact closed.exec_bind (closed.call_long call 1) fun _ _ => closed.exec_pure trivial
  | float => exact closed.exec_bind (closed.call_float call 1) fun _ _ => closed.exec_pure trivial
  | double => exact closed.exec_bind (closed.call_double call 1) fun _ _ => closed.exec_pure trivial
  | string | object =>
    exact closed.exec_bind (closed.call_reference call 1) fun reference _ =>
      closed.exec_textOf reference

theorem stream_write {text : Exec String} (made : OfExec anything text) (call : NativeCall) :
    OfExec anything (write text call) := by
  have file (ref : Ref) : OfExec anything (fileOf ref) := by
    refine closed.exec_bind (closed.exec_object ref) fun object _ => ?_
    split
    · exact closed.exec_pure trivial
    · exact closed.exec_pure trivial
  exact closed.exec_bind made fun _ _ => closed.exec_bind (closed.call_receiver call) fun receiver _ =>
    closed.exec_bind (file receiver) fun _ _ =>
      closed.exec_bind (closed.exec_print _ _) fun _ _ => closed.exec_pure trivial

end Streams

/-! ## The system class -/

section System

open Native.SystemMethods

theorem system_newStream (file : Native.StandardFile) : OfExec anything (newStream file) := by
  refine closed.exec_bind (closed.exec_load _) fun c loaded => ?_
  refine closed.exec_bind (closed.exec_ensureInitialized (known.ofNamed loaded)) fun _ _ => ?_
  refine closed.exec_bind (closed.exec_instantiate (known.ofNamed loaded)) fun stream _ => ?_
  split
  · exact closed.exec_fail _
  · exact closed.exec_bind (closed.exec_putField _ _ _) fun _ _ => closed.exec_pure trivial

theorem system_openStreams {call : NativeCall}
    (assigning : ∀ name ∈ ["out", "err"], ∀ stream,
      OfExec anything (assignStream call.owner name stream)) : OfExec anything (openStreams call) :=
  closed.exec_bind (closed.system_newStream _) fun output _ =>
    closed.exec_bind (closed.system_newStream _) fun errors _ =>
      closed.exec_bind (assigning "out" (by decide) output) fun _ _ =>
        closed.exec_bind (assigning "err" (by decide) errors) fun _ _ => closed.exec_pure trivial

theorem system_checkComponents (source target : FieldType) :
    OfExec (fun _ => source.isReference = true ∧ target.isReference = true ∨ source = target)
      (checkComponents source target) := by
  unfold checkComponents
  split
  · exact closed.exec_throwNew _ _
  · next passed =>
    refine closed.exec_pure ?_
    by_cases references : source.isReference = true ∧ target.isReference = true
    · exact .inl references
    · refine .inr (by_contra fun differ => passed ?_)
      grind

theorem system_checkRange (sourceSize targetSize : Nat) (sourceStart targetStart count : Int) :
    OfExec anything (checkRange sourceSize targetSize sourceStart targetStart count) := by
  have outside (text : String) : OfExec anything (checkRange.outside text) :=
    closed.exec_throwNew _ _
  unfold checkRange
  refine closed.exec_check (outside _) fun _ => closed.exec_check (outside _) fun _ => ?_
  split
  · exact outside _
  · exact closed.exec_pure trivial

theorem system_checkAssignable (target : LinkedClass) (value : Value) :
    OfExec anything (checkAssignable target value) := by
  unfold checkAssignable
  split
  · refine closed.exec_bind (closed.exec_object _) fun element _ => ?_
    split
    · exact closed.exec_throwNew _ _
    · exact closed.exec_pure trivial
  · exact closed.exec_pure trivial

theorem system_arraycopy
    (copying : ∀ source target sourceStart targetStart count,
      OfExec anything (copyElements source target sourceStart targetStart count))
    (call : NativeCall) : OfExec anything (arraycopy call) := by
  refine closed.exec_bind (closed.call_reference call 0) fun source _ => ?_
  refine closed.exec_bind (closed.call_int call 1) fun sourceStart _ => ?_
  refine closed.exec_bind (closed.call_reference call 2) fun target _ => ?_
  refine closed.exec_bind (closed.call_int call 3) fun targetStart _ => ?_
  refine closed.exec_bind (closed.call_int call 4) fun count _ => ?_
  split
  · exact closed.exec_bind (copying _ _ _ _ _) fun _ _ => closed.exec_pure trivial
  · exact closed.exec_throwNew _ _

theorem system_identityHashCode (call : NativeCall) : OfExec anything (identityHashCode call) := by
  refine closed.exec_bind (closed.call_reference call 0) fun reference _ => ?_
  split
  · exact closed.exec_pure trivial
  · exact closed.exec_pure trivial

theorem system_currentTimeMillis (call : NativeCall) : OfExec anything (currentTimeMillis call) :=
  closed.exec_bind closed.exec_readClock fun _ _ => closed.exec_pure trivial

theorem system_nanoTime (call : NativeCall) : OfExec anything (nanoTime call) :=
  closed.exec_bind closed.exec_readClock fun _ _ => closed.exec_pure trivial

end System

/-! ## The table of native methods -/

theorem object_table :
    OfTable (fun _ action => OfExec anything action) Native.ObjectMethods.table := by
  simp only [Native.ObjectMethods.table, ofTable_cons]
  exact ⟨closed.native_construct, closed.object_hashCode, closed.object_equals,
    closed.object_toText, nofun⟩

theorem throwable_table :
    OfTable (fun _ action => OfExec anything action) Native.ThrowableMethods.table := by
  simp only [Native.ThrowableMethods.table, ofTable_cons]
  exact ⟨closed.native_construct, closed.throwable_constructWithMessage,
    closed.throwable_getMessage, closed.throwable_toText, nofun⟩

theorem string_table :
    OfTable (fun _ action => OfExec anything action) Native.TextMethods.table := by
  simp only [Native.TextMethods.table, ofTable_cons]
  exact ⟨closed.native_construct, closed.string_length, closed.string_isEmpty,
    closed.string_charAt, closed.string_equals, closed.string_hashCode, closed.string_concat,
    closed.string_toText, closed.string_valueOfObject, closed.string_valueOfInt, nofun⟩

theorem system_table {allowed : NativeKey → NativeCall → Prop}
    (copying : ∀ source target sourceStart targetStart count,
      OfExec anything
        (Native.SystemMethods.copyElements source target sourceStart targetStart count))
    (assigning : ∀ call,
      allowed ⟨ClassName.system, MemberName.staticInitializer, "()V"⟩ call →
        ∀ name ∈ ["out", "err"], ∀ stream,
          OfExec anything (Native.SystemMethods.assignStream call.owner name stream)) :
    Serving allowed (fun _ action => OfExec anything action) Native.SystemMethods.table := by
  refine serving_cons.mpr ⟨fun call isAllowed => ?_, Compositional.OfTable.serving ?_⟩
  · exact closed.system_openStreams (assigning call isAllowed)
  · simp only [ofTable_cons]
    exact ⟨closed.system_arraycopy copying, closed.system_identityHashCode,
      closed.system_currentTimeMillis, closed.system_nanoTime, nofun⟩

theorem stream_table :
    OfTable (fun _ action => OfExec anything action) Native.StreamMethods.table := by
  rw [Native.StreamMethods.table, ofTable_cons]
  refine ⟨closed.stream_write (closed.exec_pure trivial), fun entry member => ?_⟩
  obtain ⟨kind, -, among⟩ := List.mem_flatMap.mp member
  have kinds : OfTable (fun _ action => OfExec anything action) [
      (⟨ClassName.printStream, "print", kind.descriptor⟩, Native.StreamMethods.print kind),
      (⟨ClassName.printStream, "println", kind.descriptor⟩,
        Native.StreamMethods.printLine kind)] := by
    simp only [ofTable_cons]
    refine ⟨fun call => closed.stream_write (closed.stream_text kind call) call,
      fun call => closed.stream_write ?_ call, nofun⟩
    exact closed.exec_bind (closed.stream_text kind call) fun _ _ => closed.exec_pure trivial
  exact kinds entry among

/-- **Every built-in native method is put together from the simplest actions.** -/
theorem native_table {allowed : NativeKey → NativeCall → Prop}
    (copying : ∀ source target sourceStart targetStart count,
      OfExec anything
        (Native.SystemMethods.copyElements source target sourceStart targetStart count))
    (assigning : ∀ call,
      allowed ⟨ClassName.system, MemberName.staticInitializer, "()V"⟩ call →
        ∀ name ∈ ["out", "err"], ∀ stream,
          OfExec anything (Native.SystemMethods.assignStream call.owner name stream)) :
    Serving allowed (fun _ action => OfExec anything action) Native.table := by
  simp only [Native.table, serving_append]
  exact ⟨⟨⟨⟨closed.object_table.serving, closed.string_table.serving⟩,
    closed.system_table copying assigning⟩, closed.stream_table.serving⟩,
    closed.throwable_table.serving⟩

end Informed

end JavaMachine
