import JavaMachine.Proofs.Descriptor

/-! # The grammar of descriptors

The texts that are read as types and as signatures are those of a small grammar, and each of them is
read in one way: writing what was read gives the text back, and reading what was written gives the
type or the signature back if it can be spelled (`descriptors_faithful`). -/

namespace JavaMachine

/-! ## Types -/

/-- The texts of types: a letter for a primitive type, a name between `L` and `;`, and a bracket in
front of the text of an array's component. -/
inductive FieldType.Word : List Char → Prop where
  | primitive {letter : Char} (listed : letter ∈ ['B', 'C', 'D', 'F', 'I', 'J', 'S', 'Z']) :
      Word [letter]
  | object {name : List Char} (nonempty : name ≠ []) (unbroken : ';' ∉ name) :
      Word ('L' :: (name ++ [';']))
  | array {component : List Char} (word : Word component) : Word ('[' :: component)

namespace FieldType

theorem word_write {type : FieldType} (spelled : type.Spelled) : Word type.write := by
  induction type with
  | object name =>
    refine .object (fun empty => spelled.1 ?_) spelled.2
    rw [← String.ofList_toList (s := name), empty, String.ofList_nil]
  | array component ih => exact .array (ih spelled)
  | byte | char | double | float | int | long | short | boolean => exact .primitive (by simp)

theorem exists_write_of_word {text : List Char} (word : Word text) :
    ∃ type : FieldType, type.Spelled ∧ type.write = text := by
  induction word with
  | @primitive letter listed =>
    simp only [List.mem_cons, List.not_mem_nil, or_false] at listed
    rcases listed with rfl | rfl | rfl | rfl | rfl | rfl | rfl | rfl
    · exact ⟨byte, trivial, rfl⟩
    · exact ⟨char, trivial, rfl⟩
    · exact ⟨double, trivial, rfl⟩
    · exact ⟨float, trivial, rfl⟩
    · exact ⟨int, trivial, rfl⟩
    · exact ⟨long, trivial, rfl⟩
    · exact ⟨short, trivial, rfl⟩
    · exact ⟨boolean, trivial, rfl⟩
  | @object name nonempty unbroken =>
    refine ⟨.object (String.ofList name), ⟨fun empty => nonempty ?_, ?_⟩, ?_⟩
    · rw [← String.toList_ofList (l := name), empty, String.toList_empty]
    · rwa [String.toList_ofList]
    · rw [write, String.toList_ofList]
  | array word ih =>
    obtain ⟨component, spelled, rfl⟩ := ih
    exact ⟨.array component, spelled, rfl⟩

/-- The words are the texts of the types that can be spelled. -/
theorem word_iff {text : List Char} :
    Word text ↔ ∃ type : FieldType, type.Spelled ∧ type.write = text :=
  ⟨exists_write_of_word, fun ⟨_, spelled, same⟩ => same ▸ word_write spelled⟩

theorem write_ne_nil (type : FieldType) : type.write ≠ [] := by
  cases type <;> exact List.cons_ne_nil _ _

/-- Every type takes at least one character. -/
theorem length_le_length_flatMap_write (types : List FieldType) :
    types.length ≤ (types.flatMap write).length := by
  induction types with
  | nil => exact Nat.le_refl 0
  | cons first rest ih =>
    have nonempty : 0 < first.write.length := List.length_pos_iff.mpr first.write_ne_nil
    rw [List.flatMap_cons, List.length_cons, List.length_append]
    omega

/-- Types are read from the front of a text as far as they go. -/
theorem readMany_write {types : List FieldType} (spelled : ∀ type ∈ types, type.Spelled)
    {rest : List Char} (stops : read rest = none) {fuel : Nat} (enough : types.length ≤ fuel) :
    readMany fuel (types.flatMap write ++ rest) = (types, rest) := by
  induction types generalizing fuel with
  | nil =>
    cases fuel with
    | zero => rfl
    | succ fuel => rw [List.flatMap_nil, List.nil_append, readMany, stops]
  | cons first others ih =>
    cases fuel with
    | zero => cases enough
    | succ fuel =>
      have firstRead := read_write (spelled first List.mem_cons_self)
        (others.flatMap write ++ rest)
      have othersRead := ih (fun type member => spelled type (List.mem_cons_of_mem _ member))
        (Nat.le_of_succ_le_succ enough)
      rw [List.flatMap_cons, List.append_assoc, readMany, firstRead]
      dsimp only
      rw [othersRead]

theorem eq_write_of_readMany {fuel : Nat} {text : List Char} {types : List FieldType}
    {rest : List Char} (found : readMany fuel text = (types, rest)) :
    (∀ type ∈ types, type.Spelled) ∧ text = types.flatMap write ++ rest := by
  induction fuel generalizing text types with
  | zero =>
    obtain ⟨rfl, rfl⟩ := Prod.mk.inj found
    exact ⟨nofun, rfl⟩
  | succ fuel ih =>
    rw [readMany] at found
    cases ended : read text with
    | none =>
      rw [ended] at found
      obtain ⟨rfl, rfl⟩ := Prod.mk.inj found
      exact ⟨nofun, rfl⟩
    | some result =>
      obtain ⟨first, after⟩ := result
      rw [ended] at found
      dsimp only at found
      obtain ⟨firstSpelled, rfl⟩ := eq_write_of_read ended
      cases othersRead : readMany fuel after with
      | mk others left =>
        rw [othersRead] at found
        obtain ⟨rfl, rfl⟩ := Prod.mk.inj found
        obtain ⟨othersSpelled, rfl⟩ := ih othersRead
        refine ⟨List.forall_mem_cons.mpr ⟨firstSpelled, othersSpelled⟩, ?_⟩
        rw [List.flatMap_cons, List.append_assoc]

end FieldType

/-! ## Signatures -/

namespace MethodDescriptor

/-- The texts of signatures: the texts of some types in parentheses, then the text of the type of the
result, or `V` for no result. -/
inductive Word : List Char → Prop where
  | mk {parameters : List (List Char)} {result : List Char}
      (words : ∀ parameter ∈ parameters, FieldType.Word parameter)
      (returns : FieldType.Word result ∨ result = ['V']) :
      Word ('(' :: (parameters.flatten ++ ')' :: result))

/-- Whether a signature has a descriptor that can be read. -/
structure Spelled (method : MethodDescriptor) : Prop where
  parameters : ∀ type ∈ method.parameters, type.Spelled
  result : ∀ type, method.returnType = some type → type.Spelled

theorem readReturn_eq_some_iff {text : List Char} {result : Option FieldType} :
    readReturn text = some result ↔
      (∀ type, result = some type → type.Spelled) ∧ writeReturn result = text := by
  constructor
  · intro found
    unfold readReturn at found
    split at found
    · cases found
      exact ⟨nofun, rfl⟩
    · split at found
      · next type ended =>
        cases found
        obtain ⟨spelled, rfl⟩ := FieldType.eq_write_of_read ended
        refine ⟨fun other same => Option.some.inj same ▸ spelled, ?_⟩
        rw [writeReturn, List.append_nil]
      · cases found
  · rintro ⟨spelled, rfl⟩
    cases result with
    | none => rfl
    | some type =>
      have ended := FieldType.read_write (spelled type rfl) []
      rw [List.append_nil] at ended
      unfold readReturn
      split
      · next isVoid =>
        -- no type is written as the letter of no result
        rw [writeReturn] at isVoid
        rw [isVoid] at ended
        cases ended
      · rw [writeReturn, ended]

/-- What follows the parameters is no type. -/
theorem read_closing (rest : List Char) : FieldType.read (')' :: rest) = none := by
  simp [FieldType.read]

/-- **A complete descriptor spells one signature**, the one whose descriptor it is. -/
theorem ofDescriptor?_eq_some_iff {text : String} {method : MethodDescriptor} :
    ofDescriptor? text = some method ↔ method.Spelled ∧ method.descriptor = text := by
  obtain ⟨parameters, returnType⟩ := method
  constructor
  · intro found
    unfold ofDescriptor? at found
    split at found
    · next inside opened =>
      split at found
      · next types result ended =>
        obtain ⟨returned, resultRead, same⟩ := Option.map_eq_some_iff.mp found
        cases same
        obtain ⟨spelled, rfl⟩ := FieldType.eq_write_of_readMany ended
        obtain ⟨resultSpelled, rfl⟩ := readReturn_eq_some_iff.mp resultRead
        exact ⟨⟨spelled, resultSpelled⟩, by rw [descriptor, write, ← opened, String.ofList_toList]⟩
      · cases found
    · cases found
  · rintro ⟨⟨spelled, resultSpelled⟩, rfl⟩
    have enough : parameters.length ≤
        (parameters.flatMap FieldType.write ++ ')' :: writeReturn returnType).length := by
      rw [List.length_append]
      exact (FieldType.length_le_length_flatMap_write parameters).trans (Nat.le_add_right _ _)
    have parametersRead :=
      FieldType.readMany_write spelled (read_closing (writeReturn returnType)) enough
    have resultRead := readReturn_eq_some_iff.mpr ⟨resultSpelled, rfl⟩
    dsimp only at parametersRead resultRead
    have written : (⟨parameters, returnType⟩ : MethodDescriptor).write =
        '(' :: (parameters.flatMap FieldType.write ++ ')' :: writeReturn returnType) := rfl
    generalize parameters.flatMap FieldType.write ++ ')' :: writeReturn returnType = inside
      at parametersRead written
    simp [ofDescriptor?, descriptor, written, parametersRead, resultRead]

theorem word_write {method : MethodDescriptor} (spelled : method.Spelled) : Word method.write := by
  obtain ⟨parameters, returnType⟩ := method
  rw [write, List.flatMap_def]
  refine .mk (fun text member => ?_) ?_
  · obtain ⟨type, isParameter, rfl⟩ := List.mem_map.mp member
    exact FieldType.word_write (spelled.parameters type isParameter)
  · cases returnType with
    | none => exact .inr rfl
    | some type => exact .inl (FieldType.word_write (spelled.result type rfl))

theorem exists_write_of_word {text : List Char} (word : Word text) :
    ∃ method : MethodDescriptor, method.Spelled ∧ method.write = text := by
  obtain ⟨words, returns⟩ := word
  next parameters result =>
  have types : ∃ types : List FieldType, (∀ type ∈ types, type.Spelled) ∧
      types.flatMap FieldType.write = parameters.flatten := by
    induction parameters with
    | nil => exact ⟨[], nofun, rfl⟩
    | cons first rest ih =>
      obtain ⟨firstWord, restWords⟩ := List.forall_mem_cons.mp words
      obtain ⟨type, spelled, rfl⟩ := FieldType.exists_write_of_word firstWord
      obtain ⟨types, restSpelled, same⟩ := ih restWords
      refine ⟨type :: types, List.forall_mem_cons.mpr ⟨spelled, restSpelled⟩, ?_⟩
      rw [List.flatMap_cons, List.flatten_cons, same]
  obtain ⟨types, spelled, same⟩ := types
  rcases returns with returns | rfl
  · obtain ⟨type, typeSpelled, rfl⟩ := FieldType.exists_write_of_word returns
    refine ⟨⟨types, some type⟩, ⟨spelled, fun other same => Option.some.inj same ▸ typeSpelled⟩, ?_⟩
    rw [write, same, writeReturn]
  · refine ⟨⟨types, none⟩, ⟨spelled, nofun⟩, ?_⟩
    rw [write, same, writeReturn]

/-- The words are the texts of the signatures that can be spelled. -/
theorem word_iff {text : List Char} :
    Word text ↔ ∃ method : MethodDescriptor, method.Spelled ∧ method.write = text :=
  ⟨exists_write_of_word, fun ⟨_, spelled, same⟩ => same ▸ word_write spelled⟩

end MethodDescriptor

/-! ## Reading and writing -/

/-- A way of reading texts and a way of writing them are inverse to each other: what is read from a
text is written as that text, what can be spelled is read as it is written, the texts that can be read
are those of a grammar, and no text is that of two things that can be spelled. -/
structure Faithful {τ : Type} (read : String → Option τ) (write : τ → String) (spelled : τ → Prop)
    (word : List Char → Prop) : Prop where
  write_of_read (text : String) (found : τ) (isRead : read text = some found) : write found = text
  read_of_spelled (value : τ) (isSpelled : spelled value) : read (write value) = some value
  accepts (text : String) : (∃ found, read text = some found) ↔ word text.toList
  unambiguous (first second : τ) (isFirst : spelled first) (isSecond : spelled second)
    (same : write first = write second) : first = second

theorem faithful_of_iff {τ : Type} {read : String → Option τ} {write : τ → List Char}
    {spelled : τ → Prop} {word : List Char → Prop}
    (reads : ∀ text value, read text = some value ↔ spelled value ∧ String.ofList (write value) = text)
    (words : ∀ text, word text ↔ ∃ value, spelled value ∧ write value = text) :
    Faithful read (fun value => String.ofList (write value)) spelled word where
  write_of_read text found isRead := ((reads text found).mp isRead).2
  read_of_spelled value isSpelled := (reads _ value).mpr ⟨isSpelled, rfl⟩
  accepts text := by
    rw [words]
    refine exists_congr fun value => (reads text value).trans (and_congr_right fun _ => ?_)
    constructor
    · rintro rfl
      exact String.toList_ofList.symm
    · intro same
      rw [same, String.ofList_toList]
  unambiguous first second isFirst isSecond same :=
    Option.some.inj (((reads _ first).mpr ⟨isFirst, same⟩).symm.trans
      ((reads _ second).mpr ⟨isSecond, rfl⟩))

/-- **Descriptors of types and of methods are read and written without loss**, and exactly those of
the grammar are read. -/
theorem descriptors_faithful :
    Faithful FieldType.ofDescriptor? FieldType.descriptor FieldType.Spelled FieldType.Word ∧
      Faithful MethodDescriptor.ofDescriptor? MethodDescriptor.descriptor MethodDescriptor.Spelled
        MethodDescriptor.Word :=
  ⟨faithful_of_iff (fun _ _ => FieldType.ofDescriptor?_eq_some_iff) fun _ => FieldType.word_iff,
    faithful_of_iff (fun _ _ => MethodDescriptor.ofDescriptor?_eq_some_iff) fun _ =>
      MethodDescriptor.word_iff⟩

end JavaMachine
