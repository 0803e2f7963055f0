import JavaMachine.Descriptor
import Mathlib

/-! # Spelled types

Not every type can be spelled: an object type has a name, and a semicolon ends it. Reading a
descriptor gives the types that can be spelled, and gives each of them for its own descriptor only
(`FieldType.ofDescriptor?_eq_some_iff`). -/

namespace JavaMachine.FieldType

/-- Whether a type has a descriptor that can be read: the names in it are not empty and have no
semicolon. -/
def Spelled : FieldType → Prop
  | object name => name ≠ "" ∧ ';' ∉ name.toList
  | array component => component.Spelled
  | _ => True

theorem readName_eq_some_iff {text : List Char} {name : String} {after : List Char} :
    readName text = some (name, after) ↔
      (object name).Spelled ∧ text = name.toList ++ ';' :: after := by
  constructor
  · intro found
    have parts : text.takeWhile (· != ';') ++ text.dropWhile (· != ';') = text :=
      List.takeWhile_append_dropWhile
    cases text with
    | nil => simp [readName] at found
    | cons first others =>
      simp only [readName, List.span_eq_takeWhile_dropWhile] at found
      cases before : (first :: others).takeWhile (· != ';') with
      | nil => simp [before] at found
      | cons c rest =>
        cases behind : (first :: others).dropWhile (· != ';') with
        | nil => simp [before, behind] at found
        | cons stop rest' =>
          rw [before, behind] at parts found
          obtain ⟨rfl, rfl⟩ := Prod.mk.inj (Option.some.inj found)
          have stops : stop = ';' := by
            have nonempty : (first :: others).dropWhile (· != ';') ≠ [] := by simp [behind]
            have ended := List.head_dropWhile_not (· != ';') nonempty
            simpa [behind] using ended
          have inside : ';' ∉ c :: rest := by
            intro member
            rw [← before] at member
            have passed := List.mem_takeWhile_imp member
            simp at passed
          refine ⟨⟨?_, ?_⟩, ?_⟩
          · intro empty
            have lists := congrArg String.toList empty
            simp at lists
          · rwa [String.toList_ofList]
          · rw [← parts, stops, String.toList_ofList]
  · rintro ⟨⟨nonempty, inside⟩, rfl⟩
    have passes : ∀ c ∈ name.toList, (c != ';') = true := by
      intro c member
      rw [bne_iff_ne]
      rintro rfl
      exact inside member
    have before : (name.toList ++ ';' :: after).takeWhile (· != ';') = name.toList := by
      rw [List.takeWhile_append_of_pos passes]
      simp
    have behind : (name.toList ++ ';' :: after).dropWhile (· != ';') = ';' :: after := by
      rw [List.dropWhile_append_of_pos passes]
      simp
    obtain ⟨c, rest, chars⟩ : ∃ c rest, name.toList = c :: rest := by
      refine List.exists_cons_of_ne_nil fun empty => nonempty ?_
      exact String.toList_inj.mp (by simpa using empty)
    have named : String.ofList (c :: rest) = name := by rw [← chars, String.ofList_toList]
    rw [chars] at before behind ⊢
    simp only [List.cons_append] at before behind ⊢
    simp only [readName, List.span_eq_takeWhile_dropWhile, before, behind, named]

/-- What follows the descriptor of a type is left when the type is read. -/
theorem read_write {type : FieldType} (spelled : type.Spelled) (rest : List Char) :
    read (type.write ++ rest) = some (type, rest) := by
  induction type with
  | object name =>
    have found : readName (name.toList ++ ';' :: rest) = some (name, rest) :=
      readName_eq_some_iff.mpr ⟨spelled, rfl⟩
    simp [write, read, found]
  | array component ih => simp [write, read, ih spelled]
  | byte | char | double | float | int | long | short | boolean => simp [write, read]

theorem eq_write_of_read {text : List Char} {type : FieldType} {rest : List Char}
    (found : read text = some (type, rest)) : type.Spelled ∧ text = type.write ++ rest := by
  fun_induction read text generalizing type with
  | case1 | case2 | case3 | case4 | case5 | case6 | case7 | case8 =>
    obtain ⟨rfl, rfl⟩ := Prod.mk.inj (Option.some.inj found)
    exact ⟨trivial, rfl⟩
  | case9 others =>
    obtain ⟨⟨name, after⟩, named, same⟩ := Option.map_eq_some_iff.mp found
    obtain ⟨rfl, rfl⟩ := Prod.mk.inj same
    obtain ⟨spelled, rfl⟩ := readName_eq_some_iff.mp named
    refine ⟨spelled, ?_⟩
    rw [write, List.cons_append, List.append_assoc, List.singleton_append]
  | case10 others ih =>
    obtain ⟨⟨component, after⟩, within, same⟩ := Option.map_eq_some_iff.mp found
    obtain ⟨rfl, rfl⟩ := Prod.mk.inj same
    obtain ⟨spelled, rfl⟩ := ih within
    exact ⟨spelled, rfl⟩
  | case11 => simp at found

/-- **A complete descriptor spells one type.** It is the descriptor of a type that can be spelled,
and of no other. -/
theorem ofDescriptor?_eq_some_iff {text : String} {type : FieldType} :
    ofDescriptor? text = some type ↔ type.Spelled ∧ type.descriptor = text := by
  constructor
  · intro found
    unfold ofDescriptor? at found
    split at found
    · rename_i ended
      obtain ⟨rfl⟩ := Option.some.inj found
      obtain ⟨spelled, chars⟩ := eq_write_of_read ended
      refine ⟨spelled, ?_⟩
      rw [descriptor, ← List.append_nil type.write, ← chars, String.ofList_toList]
    · exact absurd found nofun
  · rintro ⟨spelled, rfl⟩
    have ended := read_write spelled []
    rw [List.append_nil] at ended
    rw [ofDescriptor?, descriptor, String.toList_ofList, ended]

/-- What is read for the text of a type, spelled or not, is that type. -/
theorem eq_of_read_write {type other : FieldType} (found : read type.write = some (other, [])) :
    other = type := by
  induction type generalizing other with
  | object name =>
    rw [write, read] at found
    obtain ⟨⟨readName, after⟩, named, same⟩ := Option.map_eq_some_iff.mp found
    obtain ⟨rfl, rfl⟩ := Prod.mk.inj same
    obtain ⟨-, text⟩ := readName_eq_some_iff.mp named
    rw [String.toList_inj.mp (List.append_cancel_right text)]
  | array component ih =>
    rw [write, read] at found
    obtain ⟨⟨inner, after⟩, within, same⟩ := Option.map_eq_some_iff.mp found
    obtain ⟨rfl, rfl⟩ := Prod.mk.inj same
    rw [ih within]
  | byte | char | double | float | int | long | short | boolean =>
    cases found
    rfl

theorem eq_of_ofDescriptor?_descriptor {type other : FieldType}
    (found : ofDescriptor? type.descriptor = some other) : other = type := by
  obtain ⟨spelled, text⟩ := ofDescriptor?_eq_some_iff.mp found
  refine eq_of_read_write ?_
  rw [← String.ofList_injective text]
  have ended := read_write spelled []
  rwa [List.append_nil] at ended

theorem startsWith_descriptor_array (component : FieldType) :
    (array component).descriptor.startsWith "[" = true := by
  rw [String.startsWith_string_iff, descriptor, String.toList_ofList, write]
  simp

theorem descriptor_array_ne (component : FieldType) : (array component).descriptor ≠ "" := by
  intro empty
  have starts := startsWith_descriptor_array component
  rw [empty] at starts
  revert starts
  decide

end JavaMachine.FieldType
