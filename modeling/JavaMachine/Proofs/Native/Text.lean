import JavaMachine.Proofs.Execution.Decision
import JavaMachine.Proofs.Execution.Throwables
import JavaMachine.Proofs.Utf16

/-! # Strings as sequences of units

A string holds a text, and what its native methods give is said in the units of the text
(`Heap.HoldsUnits`): length, single units, equality, hash code and concatenation. All of it is put
together in `Native.TextMethods.actsOnUnits`. -/

namespace JavaMachine

open Operation (bind_of_ok)
open Utf16 (units hash)

/-- The object of a reference is a string with certain units. -/
def Heap.HoldsUnits (heap : Heap) (ref : Ref) (us : List UInt16) : Prop :=
  ∃ text, (heap.get ref).text? = some text ∧ units text = us

namespace Native.TextMethods

variable {services : Services} {machine : Machine} {owner : LinkedClass} {method : Method}
  {a b : Ref} {us vs : List UInt16} {s t : String} {arguments : List Value}

/-- The calls of a native method on a string, with arguments. -/
def on (owner : LinkedClass) (method : Method) (a : Ref) (arguments : List Value) : NativeCall :=
  ⟨owner, method, .reference (some a) :: arguments⟩

/-- What the native methods do on a string with the units `us` and with one with the units `vs`. -/
structure ActsOnUnits (services : Services) (machine : Machine) (owner : LinkedClass)
    (method : Method) (a b : Ref) (us vs : List UInt16) : Prop where
  /-- The length is the number of units, as an int. -/
  counts : ∃ n : Int32, length (on owner method a []) services machine = .ok (some (.int n)) machine ∧
    n.toInt = (us.length : Int).bmod (2 ^ 32) ∧ (us.length < 2 ^ 31 → n.toInt = us.length)
  empty : isEmpty (on owner method a []) services machine =
    .ok (some (.ofBool (decide (us.length = 0)))) machine
  /-- At an index below the length there is a unit. -/
  unit (i : Int32) (from0 : 0 ≤ i.toInt) (below : i.toInt < us.length) :
    ∃ (unit : UInt16) (n : Int32), us[i.toInt.toNat]? = some unit ∧ n.toInt = unit.toNat ∧
      charAt (on owner method a [.int i]) services machine = .ok (some (.int n)) machine
  /-- At any other index there is none. -/
  noUnit (i : Int32) (outside : ¬ (0 ≤ i.toInt ∧ i.toInt < us.length)) :
    Exec.Throws machine ClassName.stringIndexOutOfBoundsException
      (some s!"Index {i.toInt} out of bounds for length {us.length}")
      (charAt (on owner method a [.int i]) services machine)
  compares : equals (on owner method a [.reference (some b)]) services machine =
    .ok (some (.ofBool (decide (us = vs)))) machine
  /-- Both have hash codes, and the same one if they are equal. -/
  hashes : ∃ h k : Int32,
    hashCode (on owner method a []) services machine = .ok (some (.int h)) machine ∧
    hashCode (on owner method b []) services machine = .ok (some (.int k)) machine ∧
    (us = vs → h = k)
  /-- Both together make a string with the units of the one and those of the other. All objects stay
  as they are, and the hash code of the string is made of those of the two. -/
  joins : ∃ (c : Ref) (heap : Heap),
    concat (on owner method a [.reference (some b)]) services machine =
      .ok (some (.reference (some c))) { machine with heap } ∧
    heap.HoldsUnits c (us ++ vs) ∧
    (∀ ref < machine.heap.objects.size, heap.get ref = machine.heap.get ref) ∧
    (vs = [] → c = a ∧ heap = machine.heap) ∧
    ∃ h k l : Int32,
      hashCode (on owner method a []) services machine = .ok (some (.int h)) machine ∧
      hashCode (on owner method b []) services machine = .ok (some (.int k)) machine ∧
      hashCode (on owner method c []) services { machine with heap } =
        .ok (some (.int l)) { machine with heap } ∧
      l.toInt = (h.toInt * 31 ^ vs.length + k.toInt).bmod (2 ^ 32)

/-! ## One string -/

theorem receiverText_eq (string : (machine.heap.get a).text? = some s) :
    receiverText (on owner method a arguments) services machine = .ok s machine := by
  have received : (on owner method a arguments).receiver services machine = .ok a machine := rfl
  have looked : Exec.object a services machine = .ok (machine.heap.get a) machine := rfl
  rw [receiverText, bind_of_ok received, bind_of_ok looked, string]
  rfl

theorem hashCode_eq (first : machine.heap.HoldsUnits a us) :
    hashCode (on owner method a []) services machine = .ok (some (.int (hash us))) machine := by
  obtain ⟨s, string, rfl⟩ := first
  exact bind_of_ok (receiverText_eq string)

theorem length_eq (first : machine.heap.HoldsUnits a us) :
    length (on owner method a []) services machine =
      .ok (some (.int (Int32.ofNat us.length))) machine := by
  obtain ⟨s, string, rfl⟩ := first
  exact bind_of_ok (receiverText_eq string)

theorem isEmpty_eq (first : machine.heap.HoldsUnits a us) :
    isEmpty (on owner method a []) services machine =
      .ok (some (.ofBool (decide (us.length = 0)))) machine := by
  obtain ⟨s, string, rfl⟩ := first
  have same : s.isEmpty = decide ((units s).length = 0) := by
    rw [Bool.eq_iff_iff, decide_eq_true_iff, String.isEmpty_iff, List.length_eq_zero_iff,
      Utf16.units_eq_nil_iff]
  rw [← same]
  exact bind_of_ok (receiverText_eq string)

theorem charAt_of_some {unit : UInt16} {i : Int32} (string : (machine.heap.get a).text? = some s)
    (found : unitAt? s i = some unit) :
    charAt (on owner method a [.int i]) services machine =
      .ok (some (.int unit.toUInt32.toInt32)) machine := by
  have index : (on owner method a [.int i]).int 1 services machine = .ok i machine := rfl
  rw [charAt, bind_of_ok (receiverText_eq string), bind_of_ok index, found]
  rfl

theorem charAt_of_none {i : Int32} (string : (machine.heap.get a).text? = some s)
    (missing : unitAt? s i = none) :
    charAt (on owner method a [.int i]) services machine =
      Exec.throwIndex ClassName.stringIndexOutOfBoundsException i (units s).length services
        machine := by
  have index : (on owner method a [.int i]).int 1 services machine = .ok i machine := rfl
  rw [charAt, bind_of_ok (receiverText_eq string), bind_of_ok index, missing]

theorem toInt_ofUnit (unit : UInt16) : unit.toUInt32.toInt32.toInt = unit.toNat := by
  have small := unit.toNat_lt
  have word : unit.toUInt32.toInt32.toBitVec.toNat = unit.toNat := UInt16.toNat_toUInt32 unit
  rw [Int32.toInt, BitVec.toInt_eq_toNat_of_lt (by omega), word]

theorem charAt_of_below (first : machine.heap.HoldsUnits a us) {i : Int32} (from0 : 0 ≤ i.toInt)
    (below : i.toInt < us.length) :
    ∃ (unit : UInt16) (n : Int32), us[i.toInt.toNat]? = some unit ∧ n.toInt = unit.toNat ∧
      charAt (on owner method a [.int i]) services machine = .ok (some (.int n)) machine := by
  obtain ⟨s, string, rfl⟩ := first
  have inside : i.toInt.toNat < (units s).length := by omega
  have found : unitAt? s i = some (units s)[i.toInt.toNat] := by
    rw [unitAt?, if_pos (Int32.le_iff_toInt_le.mpr (Int32.toInt_zero ▸ from0)), List.getElem?_eq_getElem inside]
  exact ⟨_, _, List.getElem?_eq_getElem inside, toInt_ofUnit _, charAt_of_some string found⟩

theorem charAt_throws (builtin : ClassSource.StartsBuiltin services.sources)
    (sound : machine.Sound services.sources) (first : machine.heap.HoldsUnits a us) {i : Int32}
    (outside : ¬ (0 ≤ i.toInt ∧ i.toInt < us.length)) :
    Exec.Throws machine ClassName.stringIndexOutOfBoundsException
      (some s!"Index {i.toInt} out of bounds for length {us.length}")
      (charAt (on owner method a [.int i]) services machine) := by
  obtain ⟨s, string, rfl⟩ := first
  have missing : unitAt? s i = none := by
    rw [unitAt?]
    split
    · next from0 =>
      have positive : 0 ≤ i.toInt := Int32.le_iff_toInt_le.mp from0
      exact List.getElem?_eq_none (by omega)
    · rfl
  rw [charAt_of_none string missing]
  exact Exec.throwNew_throws builtin sound (by decide) _

/-! ## Two strings -/

theorem equals_eq (first : machine.heap.HoldsUnits a us) (second : machine.heap.HoldsUnits b vs) :
    equals (on owner method a [.reference (some b)]) services machine =
      .ok (some (.ofBool (decide (us = vs)))) machine := by
  obtain ⟨s, string, rfl⟩ := first
  obtain ⟨t, other, rfl⟩ := second
  have given : (on owner method a [.reference (some b)]).reference 1 services machine =
      .ok (some b) machine := rfl
  have looked : Exec.object b services machine = .ok (machine.heap.get b) machine := rfl
  have same : (some t == some s) = decide (units s = units t) := by
    rw [Bool.eq_iff_iff, decide_eq_true_iff, beq_iff_eq, Option.some.injEq, Utf16.units_inj, eq_comm]
  rw [equals, bind_of_ok (receiverText_eq string), bind_of_ok given]
  refine (bind_of_ok looked).trans ?_
  rw [other, same]
  rfl

theorem text_eq (other : (machine.heap.get b).text? = some t) :
    (on owner method a [.reference (some b)]).text 1 services machine = .ok (some t) machine := by
  have given : (on owner method a [.reference (some b)]).reference 1 services machine =
      .ok (some b) machine := rfl
  have looked : Exec.object b services machine = .ok (machine.heap.get b) machine := rfl
  rw [NativeCall.text, bind_of_ok given]
  refine (bind_of_ok looked).trans ?_
  rw [other]
  rfl

theorem concat_eq (string : (machine.heap.get a).text? = some s)
    (other : (machine.heap.get b).text? = some t) :
    concat (on owner method a [.reference (some b)]) services machine =
      if t.isEmpty then .ok (some (.reference (some a))) machine
      else .ok (some (.reference (some machine.heap.objects.size)))
        { machine with heap := (machine.heap.add ⟨services.stringClass, .text (s ++ t)⟩).2 } := by
  have received : (on owner method a [.reference (some b)]).receiver services machine =
      .ok a machine := rfl
  rw [concat, bind_of_ok received, bind_of_ok (receiverText_eq string), bind_of_ok (text_eq other)]
  dsimp only
  split <;> rfl

/-- A string with nothing added to it stays; otherwise a new one is made. -/
theorem exists_concat (first : machine.heap.HoldsUnits a us) (second : machine.heap.HoldsUnits b vs) :
    ∃ (c : Ref) (heap : Heap),
      concat (on owner method a [.reference (some b)]) services machine =
        .ok (some (.reference (some c))) { machine with heap } ∧
      heap.HoldsUnits c (us ++ vs) ∧
      (∀ ref < machine.heap.objects.size, heap.get ref = machine.heap.get ref) ∧
      (vs = [] → c = a ∧ heap = machine.heap) := by
  obtain ⟨s, string, rfl⟩ := first
  obtain ⟨t, other, rfl⟩ := second
  have same : concat (on owner method a [.reference (some b)]) services machine = _ :=
    concat_eq string other
  by_cases nothing : t = ""
  · have none : units t = [] := Utf16.units_eq_nil_iff.mpr nothing
    rw [if_pos (String.isEmpty_iff.mpr nothing)] at same
    rw [none, List.append_nil]
    exact ⟨a, machine.heap, same, ⟨s, string, rfl⟩, fun _ _ => rfl, fun _ => ⟨rfl, rfl⟩⟩
  · have some : units t ≠ [] := fun none => nothing (Utf16.units_eq_nil_iff.mp none)
    rw [if_neg fun empty => nothing (String.isEmpty_iff.mp empty)] at same
    refine ⟨_, _, same, ⟨s ++ t, ?_, Utf16.units_append s t⟩, fun _ => Heap.get_add_of_lt,
      fun none => absurd none some⟩
    rw [Heap.get_add_self]
    rfl

/-- **Strings are sequences of units** to their native methods, whatever texts they hold and
whatever objects they are. -/
theorem actsOnUnits (builtin : ClassSource.StartsBuiltin services.sources)
    (sound : machine.Sound services.sources) (first : machine.heap.HoldsUnits a us)
    (second : machine.heap.HoldsUnits b vs) (owner : LinkedClass) (method : Method) :
    ActsOnUnits services machine owner method a b us vs where
  counts := by
    refine ⟨_, length_eq first, ?_, ?_⟩
    · exact Int32.toInt_ofNat'
    · exact Int32.toInt_ofNat_of_lt
  empty := isEmpty_eq first
  unit _ := charAt_of_below first
  noUnit _ := charAt_throws builtin sound first
  compares := equals_eq first second
  hashes := ⟨_, _, hashCode_eq first, hashCode_eq second, congrArg hash⟩
  joins := by
    obtain ⟨c, heap, made, holds, kept, none⟩ : ∃ c heap,
        concat (on owner method a [.reference (some b)]) services machine = _ ∧ _ :=
      exists_concat first second
    have joined : ({ machine with heap } : Machine).heap.HoldsUnits c (us ++ vs) := holds
    exact ⟨c, heap, made, holds, kept, none, _, _, _, hashCode_eq first, hashCode_eq second,
      hashCode_eq joined, Utf16.toInt_hash_append us vs⟩

/-- A machine with two strings, once the class of strings is loaded. The first one ends with a
character of two units. -/
def pairMachine (loaded : LoadedClasses) (strings : LinkedClass) : Machine :=
  { ({} : Machine) with
    loaded
    heap := ((({} : Heap).add ⟨strings, .text "a😀"⟩).2.add ⟨strings, .text "b"⟩).2 }

theorem isOk_load_strings :
    (answer (Exec.load ClassName.string Services.builtin {})).isOk = true := by
  decide +kernel

theorem actsOnUnits_pair :
    ∃ loaded strings, (pairMachine loaded strings).Sound Services.builtin.sources ∧
      ActsOnUnits Services.builtin (pairMachine loaded strings) default default 0 1
        [97, 0xd83d, 0xde00] [98] := by
  have isOk := isOk_load_strings
  cases loading : Exec.load ClassName.string Services.builtin {} with
  | error interruption after =>
    rw [loading] at isOk
    cases isOk
  | ok strings after =>
    have new : ({} : Machine).Sound Services.builtin.sources := Machine.sound_new _
    obtain ⟨succeeds, given⟩ := new.succeeds_load ClassName.string
    rw [loading] at succeeds
    obtain ⟨defined, named⟩ := given strings after loading
    obtain ⟨loaded, rfl⟩ := Exec.exists_of_load_ok loading
    have before : ({ loaded } : Machine).Sound Services.builtin.sources := succeeds.sound
    have string (heap : Heap) (text : String) :
        (⟨strings, .text text⟩ : HeapObject).Sound Services.builtin.sources heap :=
      (HeapObject.typed_text (.inl defined) named text).sound rfl
    have heap := (before.heap.add (string _ "a😀")).add (string _ "b")
    have grows := (Heap.grows_add ({} : Heap) ⟨strings, .text "a😀"⟩).trans
      (Heap.grows_add _ ⟨strings, .text "b"⟩)
    have sound : (pairMachine loaded strings).Sound Services.builtin.sources :=
      (before.succeeds_heap heap grows).sound
    refine ⟨loaded, strings, sound, ?_⟩
    exact actsOnUnits Services.startsBuiltin_builtin sound ⟨"a😀", rfl, by decide⟩
      ⟨"b", rfl, by decide⟩ default default

end Native.TextMethods

end JavaMachine
