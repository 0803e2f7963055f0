import JavaMachine.Proofs.Assembler.Depth

/-! # The layout of a body

The code of a body is made of pieces: bytes that are known when they are emitted, and offsets of
labels for which room is left. Each item appends its pieces and a fixup for each offset among them
(`CodeBuilder.exists_adds`), so that a body under construction is the pieces of its items one after
the other. Finishing it puts the offsets in their places: the code is what the pieces encode
(`CodeBuilder.code_of_finish`), and it holds the pieces of an item at the offset of the item
(`CodeBuilder.Placed.holds`). -/

namespace JavaMachine

open CodeBuilder (applyFixup labelOffset patch)

/-- A piece of code whose labels have no places yet: a byte, or the offset of a label from the start
of an instruction, in four bytes or in two. -/
inductive Piece where
  | byte (value : UInt8)
  | offset (label : Label) (start : Nat) (wide : Bool)
  deriving DecidableEq, Inhabited

namespace Piece

variable {pieces others : List Piece} {place : Label → Nat}

/-- The bytes that leave room for a piece. -/
def blank : Piece → List UInt8
  | byte value => [value]
  | offset _ _ wide => List.replicate (if wide then 4 else 2) 0

/-- The bytes of a piece, when labels have places. -/
def encode (place : Label → Nat) : Piece → List UInt8
  | byte value => [value]
  | offset label start wide =>
    if wide then Writer.u32 (Int32.ofInt (place label - start)).toUInt32
    else Writer.u16 (Int16.ofInt (place label - start)).toUInt16

/-- The fixups of pieces that begin at a position. -/
def fixups : Nat → List Piece → List Fixup
  | _, [] => []
  | position, byte _ :: rest => fixups (position + 1) rest
  | position, offset label start wide :: rest =>
    ⟨label, start, position, wide⟩ :: fixups (position + if wide then 4 else 2) rest

/-- Bytes as pieces. -/
def ofBytes (bytes : List UInt8) : List Piece :=
  bytes.map byte

theorem length_encode (place : Label → Nat) (piece : Piece) :
    (piece.encode place).length = piece.blank.length := by
  cases piece with
  | byte value => rfl
  | offset label start wide => cases wide <;> rfl

theorem length_flatMap_encode (place : Label → Nat) (pieces : List Piece) :
    (pieces.flatMap (encode place)).length = (pieces.flatMap blank).length := by
  simp only [List.length_flatMap, length_encode]

theorem fixups_append (position : Nat) (pieces others : List Piece) :
    fixups position (pieces ++ others) =
      fixups position pieces ++ fixups (position + (pieces.flatMap blank).length) others := by
  induction pieces generalizing position with
  | nil => rfl
  | cons piece rest ih =>
    cases piece with
    | byte value =>
      simp only [List.cons_append, fixups, ih, List.flatMap_cons, blank, List.length_cons,
        Nat.add_assoc, Nat.add_comm 1]
      rfl
    | offset label start wide =>
      simp only [List.cons_append, fixups, ih, List.flatMap_cons, blank, List.length_append,
        List.length_replicate, Nat.add_assoc]

@[simp]
theorem blank_ofBytes (bytes : List UInt8) : (ofBytes bytes).flatMap blank = bytes := by
  simp [ofBytes, List.flatMap_map, blank]

@[simp]
theorem encode_ofBytes (bytes : List UInt8) : (ofBytes bytes).flatMap (encode place) = bytes := by
  simp [ofBytes, List.flatMap_map, encode]

@[simp]
theorem fixups_ofBytes (position : Nat) (bytes : List UInt8) :
    fixups position (ofBytes bytes) = [] := by
  induction bytes generalizing position with
  | nil => rfl
  | cons byte rest ih => exact ih (position + 1)

end Piece

/-- The labels of a handler: where its range starts and stops, and where it is. -/
def PendingHandler.labels (handler : PendingHandler) : Label × Label × Label :=
  (handler.start, handler.stop, handler.target)

/-- The offsets of a handler: where its range starts and stops, and where it is. -/
def HandlerEntry.offsets (entry : HandlerEntry) : Nat × Nat × Nat :=
  (entry.startPc.toNat, entry.endPc.toNat, entry.handlerPc.toNat)

/-- The labels of the handler that an item adds, if it does. -/
def CodeItem.guards : CodeItem → List (Label × Label × Label)
  | .handler start stop target _ => [(start, stop, target)]
  | _ => []

namespace CodeBuilder

variable {start before middle after final : CodeBuilder} {items : List CodeItem} {α : Type}
  {pieces others : List Piece}

/-! ## Pieces that are emitted -/

/-- Where a label is bound, if it is. -/
def offset? (builder : CodeBuilder) (label : Label) : Option Nat :=
  (builder.labels.getD label {}).offset

/-- Assembling goes on from one state to another by emitting pieces; labels that are bound stay
bound. -/
structure Emits (pieces : List Piece) (before after : CodeBuilder) : Prop where
  code : after.code.toList = before.code.toList ++ pieces.flatMap Piece.blank
  fixups : after.fixups.toList = before.fixups.toList ++ Piece.fixups before.code.size pieces
  labels : after.labels.size = before.labels.size
  bound {label : Label} {place : Nat} (known : before.offset? label = some place) :
    after.offset? label = some place

theorem Emits.size (emits : Emits pieces before after) :
    after.code.size = before.code.size + (pieces.flatMap Piece.blank).length := by
  rw [← Array.length_toList, emits.code, List.length_append, Array.length_toList]

theorem Emits.trans (near : Emits pieces before middle) (far : Emits others middle after) :
    Emits (pieces ++ others) before after where
  code := by rw [far.code, near.code, List.flatMap_append, List.append_assoc]
  fixups := by rw [far.fixups, near.fixups, near.size, Piece.fixups_append, List.append_assoc]
  labels := far.labels.trans near.labels
  bound known := far.bound (near.bound known)

/-- Assembling goes on by emitting pieces; it binds no label and adds no handler. -/
structure Lays (pieces : List Piece) (before after : CodeBuilder) : Prop where
  code : after.code.toList = before.code.toList ++ pieces.flatMap Piece.blank
  fixups : after.fixups.toList = before.fixups.toList ++ Piece.fixups before.code.size pieces
  labels : after.labels.size = before.labels.size
  offset (label : Label) : after.offset? label = before.offset? label
  handlers : after.handlers = before.handlers

theorem Lays.emits (lays : Lays pieces before after) : Emits pieces before after where
  code := lays.code
  fixups := lays.fixups
  labels := lays.labels
  bound {label _} known := (lays.offset label).trans known

theorem Lays.trans (near : Lays pieces before middle) (far : Lays others middle after) :
    Lays (pieces ++ others) before after where
  code := (near.emits.trans far.emits).code
  fixups := (near.emits.trans far.emits).fixups
  labels := far.labels.trans near.labels
  offset label := (far.offset label).trans (near.offset label)
  handlers := far.handlers.trans near.handlers

/-- Nothing is emitted if the code, the fixups and the handlers stay, and labels stay where they
are. -/
theorem lays_nil (code : after.code = before.code) (fixups : after.fixups = before.fixups)
    (labels : after.labels.size = before.labels.size)
    (offset : ∀ label, after.offset? label = before.offset? label)
    (handlers : after.handlers = before.handlers) : Lays [] before after where
  code := by rw [code, List.flatMap_nil, List.append_nil]
  fixups := by
    rw [fixups]
    exact (List.append_nil _).symm
  labels := labels
  offset := offset
  handlers := handlers

theorem getD_modify {labels : Array LabelState} {label other : Label}
    {change : LabelState → LabelState} :
    (labels.modify label change).getD other {} =
      if label = other ∧ other < labels.size then change (labels.getD other {})
      else labels.getD other {} := by
  simp only [Array.getD_eq_getD_getElem?, Array.getElem?_modify]
  by_cases inside : other < labels.size
  · by_cases same : label = other
    · simp [same, inside]
    · simp [same]
  · simp [inside]

theorem offset?_learnDepth (builder : CodeBuilder) (label other : Label) (depth : Nat) :
    offset? { builder with labels := builder.labels.modify label (·.learnDepth depth) } other =
      builder.offset? other := by
  simp only [offset?, getD_modify]
  split
  · rfl
  · rfl

theorem quiet_lays : Quiet (Lays []) where
  refl _ := lays_nil rfl rfl rfl (fun _ => rfl) rfl
  trans near far := near.trans far
  pool _ := lays_nil rfl rfl rfl (fun _ => rfl) rfl
  slots _ _ := lays_nil rfl rfl rfl (fun _ => rfl) rfl
  ends _ := lays_nil rfl rfl rfl (fun _ => rfl) rfl
  learn builder label depth :=
    lays_nil rfl rfl Array.size_modify (fun other => offset?_learnDepth builder label other depth) rfl
  locals _ _ := lays_nil rfl rfl rfl (fun _ => rfl) rfl
  room _ _ := lays_nil rfl rfl rfl (fun _ => rfl) rfl

theorem lays_bytes (builder : CodeBuilder) (bytes : List UInt8) :
    Lays (Piece.ofBytes bytes) builder { builder with code := builder.code ++ bytes } where
  code := by
    rw [Piece.blank_ofBytes]
    exact Array.toList_appendList
  fixups := by rw [Piece.fixups_ofBytes, List.append_nil]
  labels := rfl
  offset _ := rfl
  handlers := rfl

theorem lays_offset (builder : CodeBuilder) (label : Label) (start : Nat) (wide : Bool) :
    Lays [.offset label start wide] builder { builder with
      fixups := builder.fixups.push ⟨label, start, builder.code.size, wide⟩
      code := builder.code ++ List.replicate (if wide then 4 else 2) (0 : UInt8) } where
  code := by
    rw [List.flatMap_cons, List.flatMap_nil, List.append_nil]
    exact Array.toList_appendList
  fixups := Array.toList_push
  labels := rfl
  offset _ := rfl
  handlers := rfl

theorem stepwise_lays : Stepwise fun before after => ∃ pieces, Lays pieces before after where
  refl builder := ⟨[], quiet_lays.refl builder⟩
  trans := by
    rintro _ _ _ ⟨pieces, near⟩ ⟨others, far⟩
    exact ⟨pieces ++ others, near.trans far⟩
  pool grows := ⟨[], quiet_lays.pool grows⟩
  slots push enough := ⟨[], quiet_lays.slots push enough⟩
  ends builder := ⟨[], quiet_lays.ends builder⟩
  learn builder label depth := ⟨[], quiet_lays.learn builder label depth⟩
  locals builder _ := ⟨[], quiet_lays.locals builder _⟩
  room builder _ := ⟨[], quiet_lays.room builder _⟩
  bytes builder bytes := ⟨_, lays_bytes builder bytes⟩
  offset builder label start wide := ⟨_, lays_offset builder label start wide⟩

/-! ## Items -/

/-- What an item does to a body: it emits pieces, binds a label at its own place or none, and adds its
handler if it is one. -/
structure Adds (item : CodeItem) (pieces : List Piece) (before after : CodeBuilder) : Prop where
  emits : Emits pieces before after
  binds {label : Label} {place : Nat} (known : after.offset? label = some place) :
    before.offset? label = some place ∨ item = .bind label ∧ place = before.code.size
  guards : after.handlers.toList.map PendingHandler.labels =
    before.handlers.toList.map PendingHandler.labels ++ item.guards

theorem Lays.adds {item : CodeItem} (lays : Lays pieces before after) (none : item.guards = []) :
    Adds item pieces before after where
  emits := lays.emits
  binds {label _} known := .inl ((lays.offset label).symm.trans known)
  guards := by rw [lays.handlers, none, List.append_nil]

/-- A label is bound once, where the code ends so far. -/
theorem bindLabel_eq_ok {label : Label} (ended : bindLabel label before = .ok ((), after)) :
    before.offset? label = none ∧ ∃ known depth reachable, after = { before with
      labels := before.labels.modify label fun _ => ⟨some before.code.size, known⟩
      depth
      reachable } := by
  unfold bindLabel at ended
  obtain ⟨_, _, got, ended⟩ := Assembling.exists_of_bind ended
  cases got
  dsimp only at ended
  split at ended
  · cases ended
  · next unbound =>
    have none : before.offset? label = none := by
      simpa [offset?] using unbound
    split at ended
    · cases ended
      exact ⟨none, _, _, _, rfl⟩
    · cases ended
      exact ⟨none, _, _, _, rfl⟩

theorem offset?_of_bindLabel {label : Label} (ended : bindLabel label before = .ok ((), after))
    (other : Label) : after.offset? other =
      if label = other ∧ other < before.labels.size then some before.code.size
      else before.offset? other := by
  obtain ⟨-, known, depth, reachable, rfl⟩ := bindLabel_eq_ok ended
  simp only [offset?, getD_modify]
  split
  · rfl
  · rfl

theorem adds_of_bindLabel {label : Label} (ended : bindLabel label before = .ok ((), after)) :
    Adds (.bind label) [] before after := by
  have offset := offset?_of_bindLabel ended
  obtain ⟨none, known, depth, reachable, rfl⟩ := bindLabel_eq_ok ended
  refine ⟨⟨?_, ?_, Array.size_modify, ?_⟩, ?_, ?_⟩
  · exact (List.append_nil _).symm
  · exact (List.append_nil _).symm
  · intro other place found
    rw [offset, if_neg]
    · exact found
    · rintro ⟨rfl, -⟩
      rw [none] at found
      cases found
  · intro other place found
    rw [offset] at found
    split at found
    · next same =>
      cases found
      exact .inr ⟨by rw [same.1], rfl⟩
    · exact .inl found
  · exact (List.append_nil _).symm

theorem adds_of_addHandler {start stop target : Label} {type : Option String}
    (ended : addHandler start stop target type before = .ok ((), after)) :
    Adds (.handler start stop target type) [] before after := by
  obtain ⟨pool, catchType, -, -, rfl⟩ := addHandler_eq_ok ended
  have offset (label : Label) := offset?_learnDepth before target label 1
  refine ⟨⟨?_, ?_, Array.size_modify, ?_⟩, ?_, ?_⟩
  · exact (List.append_nil _).symm
  · exact (List.append_nil _).symm
  · exact fun {label place} found => (offset label).trans found
  · exact fun {label place} found => .inl ((offset label).symm.trans found)
  · simp only [Array.toList_push, List.map_append, List.map_cons, List.map_nil]
    rfl

/-- **Every item appends pieces.** -/
theorem exists_adds {item : CodeItem} (ended : CodeBuilder.item item before = .ok ((), after)) :
    ∃ pieces, Adds item pieces before after := by
  by_cases binds : ∃ label, item = .bind label
  · obtain ⟨label, rfl⟩ := binds
    exact ⟨[], adds_of_bindLabel ended⟩
  · by_cases handles : ∃ start stop target type, item = .handler start stop target type
    · obtain ⟨start, stop, target, type, rfl⟩ := handles
      exact ⟨[], adds_of_addHandler ended⟩
    · have none : item.guards = [] := by
        cases item with
        | handler start stop target type => exact absurd ⟨start, stop, target, type, rfl⟩ handles
        | _ => rfl
      obtain ⟨pieces, lays⟩ := stepwise_lays.within_item item
        (fun label same => absurd ⟨label, same⟩ binds)
        (fun start stop target type same => absurd ⟨start, stop, target, type, same⟩ handles)
        (fun _ same => same ▸ within_modify fun _ => ⟨[], lays_nil rfl rfl rfl (fun _ => rfl) rfl⟩)
        before () after ended
      exact ⟨pieces, lays.adds none⟩

/-! ## Bodies -/

/-- An item of a body is emitted at an offset, and what is behind it at the next one. -/
def Placed (start : CodeBuilder) (items : List CodeItem) (item : CodeItem) (offset next : Nat) :
    Prop :=
  ∃ front back before after, items = front ++ item :: back ∧
    front.forM CodeBuilder.item start = .ok ((), before) ∧
    CodeBuilder.item item before = .ok ((), after) ∧
    before.code.size = offset ∧ after.code.size = next

theorem Placed.behind {first item : CodeItem} {rest : List CodeItem} {offset next : Nat}
    (placed : Placed middle rest item offset next)
    (began : CodeBuilder.item first start = .ok ((), middle)) :
    Placed start (first :: rest) item offset next := by
  obtain ⟨front, back, before, after, rfl, reached, emitted, rfl, rfl⟩ := placed
  exact ⟨first :: front, back, before, after, rfl, forM_cons_eq_ok.mpr ⟨middle, began, reached⟩,
    emitted, rfl, rfl⟩

/-- What items do to a body one after the other: they emit pieces, bind labels where they stand, and
add handlers in their order. -/
structure Grows (items : List CodeItem) (pieces : List Piece) (start final : CodeBuilder) :
    Prop where
  emits : Emits pieces start final
  binds {label : Label} {place : Nat} (known : final.offset? label = some place) :
    start.offset? label = some place ∨ Placed start items (.bind label) place place
  guards : final.handlers.toList.map PendingHandler.labels =
    start.handlers.toList.map PendingHandler.labels ++ items.flatMap CodeItem.guards

theorem exists_grows (emitted : items.forM CodeBuilder.item start = .ok ((), final)) :
    ∃ pieces, Grows items pieces start final := by
  induction items generalizing start with
  | nil =>
    cases emitted
    exact ⟨[], (quiet_lays.refl final).emits, .inl, (List.append_nil _).symm⟩
  | cons first rest ih =>
    obtain ⟨middle, began, emitted⟩ := forM_cons_eq_ok.mp emitted
    obtain ⟨pieces, adds⟩ := exists_adds began
    obtain ⟨others, grows⟩ := ih emitted
    refine ⟨pieces ++ others, adds.emits.trans grows.emits, ?_, ?_⟩
    · intro label place known
      rcases grows.binds known with known | placed
      · rcases adds.binds known with known | ⟨rfl, rfl⟩
        · exact .inl known
        · have stays : middle.code.size = start.code.size := by
            obtain ⟨-, _, _, _, rfl⟩ := bindLabel_eq_ok began
            rfl
          exact .inr ⟨[], rest, start, middle, rfl, rfl, began, rfl, stays⟩
      · exact .inr (placed.behind began)
    · rw [grows.guards, adds.guards, List.flatMap_cons, List.append_assoc]

/-- Nothing of a body is there yet. -/
structure Fresh (start : CodeBuilder) : Prop where
  code : start.code = #[]
  fixups : start.fixups = #[]
  handlers : start.handlers = #[]
  unbound (label : Label) : start.offset? label = none

/-- The place of a label; one that is not bound counts as bound at the start. -/
def place (builder : CodeBuilder) (label : Label) : Nat :=
  (builder.offset? label).getD 0

/-! ## Finishing -/

theorem patch_append (front old new back : List UInt8) (same : old.length = new.length) :
    (patch (front ++ old ++ back).toArray front.length new).toList = front ++ new ++ back := by
  induction new generalizing front old with
  | nil =>
    rw [List.eq_nil_of_length_eq_zero same]
    rfl
  | cons byte rest ih =>
    obtain ⟨first, others, rfl⟩ := List.exists_of_length_succ old same
    have written : (front ++ first :: others ++ back).toArray.setIfInBounds front.length byte =
        (front ++ [byte] ++ others ++ back).toArray := by
      simp
    rw [patch, written]
    have patched := ih (front ++ [byte]) others (Nat.succ.inj same)
    rw [List.length_append] at patched
    rw [show front.length + 1 = front.length + [byte].length from rfl, patched]
    simp

theorem labelOffset_eq_ok {builder : CodeBuilder} {label : Label} {place : Nat} :
    labelOffset builder.labels label = .ok place ↔ builder.offset? label = some place := by
  unfold labelOffset offset?
  cases (builder.labels.getD label {}).offset with
  | none => exact ⟨nofun, nofun⟩
  | some offset => simp

/-- Writing one offset puts its bytes in the room left for it. -/
theorem applyFixup_eq_ok {builder : CodeBuilder} {label : Label} {offset : Nat} {wide : Bool}
    {front back : List UInt8} {patched : Array UInt8}
    (ended : applyFixup builder.labels
      (front ++ (Piece.offset label offset wide).blank ++ back).toArray
      ⟨label, offset, front.length, wide⟩ = .ok patched) :
    patched.toList = front ++ (Piece.offset label offset wide).encode builder.place ++ back ∧
      ∃ place, builder.offset? label = some place ∧
        (wide = false → -0x8000 ≤ (place : Int) - offset ∧ (place : Int) - offset ≤ 0x7fff) := by
  obtain ⟨place, bound, ended⟩ := Except.bind_eq_ok_iff.mp ended
  rw [labelOffset_eq_ok] at bound
  have there : builder.place label = place := by rw [CodeBuilder.place, bound, Option.getD_some]
  dsimp only at ended
  cases wide with
  | true =>
    cases ended
    refine ⟨?_, place, bound, nofun⟩
    rw [Piece.encode, there]
    exact patch_append _ _ _ _ rfl
  | false =>
    rw [if_neg Bool.false_ne_true] at ended
    split at ended
    · next fits =>
      cases ended
      refine ⟨?_, place, bound, fun _ => fits⟩
      rw [Piece.encode, there]
      exact patch_append _ _ _ _ rfl
    · cases ended

/-- Writing the offsets of pieces one after the other, behind code that is written already. -/
theorem applyFixups_eq_ok {builder : CodeBuilder} {front : List UInt8} {patched : Array UInt8}
    (ended : (Piece.fixups front.length pieces).foldlM (applyFixup builder.labels)
      (front ++ pieces.flatMap Piece.blank).toArray = .ok patched) :
    patched.toList = front ++ pieces.flatMap (Piece.encode builder.place) ∧
      ∀ label offset wide, Piece.offset label offset wide ∈ pieces →
        ∃ place, builder.offset? label = some place ∧
          (wide = false → -0x8000 ≤ (place : Int) - offset ∧ (place : Int) - offset ≤ 0x7fff) := by
  induction pieces generalizing front with
  | nil =>
    cases ended
    exact ⟨rfl, nofun⟩
  | cons piece rest ih =>
    cases piece with
    | byte value =>
      have behind : (front ++ [value]).length = front.length + 1 := List.length_append
      have split : front ++ (Piece.byte value :: rest).flatMap Piece.blank =
          (front ++ [value]) ++ rest.flatMap Piece.blank := by simp [Piece.blank]
      rw [Piece.fixups, split, ← behind] at ended
      obtain ⟨code, bound⟩ := ih ended
      refine ⟨by simp [code, Piece.encode], ?_⟩
      intro label offset wide member
      exact bound label offset wide (by simpa using member)
    | offset label offset wide =>
      rw [Piece.fixups, List.foldlM_cons, List.flatMap_cons, ← List.append_assoc] at ended
      obtain ⟨written, applied, ended⟩ := Except.bind_eq_ok_iff.mp ended
      obtain ⟨code, known⟩ := applyFixup_eq_ok applied
      have behind : (front ++ (Piece.offset label offset wide).encode builder.place).length =
          front.length + if wide then 4 else 2 := by
        rw [List.length_append, Piece.length_encode, Piece.blank, List.length_replicate]
      rw [← behind, show written = written.toList.toArray from rfl, code] at ended
      obtain ⟨whole, bound⟩ := ih ended
      refine ⟨by rw [whole, List.flatMap_cons, List.append_assoc], ?_⟩
      intro other start far member
      rcases List.mem_cons.mp member with same | member
      · cases same
        exact known
      · exact bound other start far member

/-- **The code of a finished body is what its pieces encode**, each label that they mention is bound,
and offsets of two bytes are in range. -/
theorem code_of_finish {body : CodeBody Attribute} (fresh : Fresh start)
    (emits : Emits pieces start final) (finished : final.finish = .ok body) :
    body.code = pieces.flatMap (Piece.encode final.place) ∧
      (∀ label offset wide, Piece.offset label offset wide ∈ pieces →
        ∃ place, final.offset? label = some place ∧
          (wide = false → -0x8000 ≤ (place : Int) - offset ∧ (place : Int) - offset ≤ 0x7fff)) ∧
      final.code.size ≤ 0xffff := by
  unfold finish at finished
  split at finished
  · cases finished
  · next fits =>
    obtain ⟨code, patched, finished⟩ := Except.bind_eq_ok_iff.mp finished
    obtain ⟨handlers, -, finished⟩ := Except.bind_eq_ok_iff.mp finished
    cases finished
    have blank : final.code = ([] ++ pieces.flatMap Piece.blank).toArray := by
      apply Array.toList_inj.mp
      rw [emits.code, fresh.code]
    have fixups : final.fixups.toList = Piece.fixups ([] : List UInt8).length pieces := by
      simp [emits.fixups, fresh.code, fresh.fixups]
    rw [← Array.foldlM_toList, fixups, blank] at patched
    obtain ⟨written, bound⟩ := applyFixups_eq_ok patched
    exact ⟨written, bound, Nat.le_of_not_lt fits⟩

/-! ## What the code holds -/

/-- Code holds bytes at a position. -/
def Holds (code : List UInt8) (position : Nat) (bytes : List UInt8) : Prop :=
  bytes <+: code.drop position

theorem holds_append {code first second : List UInt8} {position : Nat} :
    Holds code position (first ++ second) ↔
      Holds code position first ∧ Holds code (position + first.length) second := by
  unfold Holds
  rw [← List.drop_drop]
  constructor
  · rintro ⟨rest, whole⟩
    rw [← whole, List.append_assoc, List.drop_left]
    exact ⟨List.prefix_append _ _, List.prefix_append _ _⟩
  · rintro ⟨⟨rest, whole⟩, behind⟩
    rw [← whole, List.drop_left] at behind
    rw [← whole]
    exact List.prefix_append_right_inj first |>.mpr behind

theorem holds_cons {code rest : List UInt8} {position : Nat} {byte : UInt8} :
    Holds code position (byte :: rest) ↔
      Holds code position [byte] ∧ Holds code (position + 1) rest := by
  rw [← List.singleton_append]
  exact holds_append

theorem Holds.getElem? {code : List UInt8} {position : Nat} {byte : UInt8}
    (holds : Holds code position [byte]) : code[position]? = some byte := by
  obtain ⟨rest, whole⟩ := holds
  rw [← Nat.add_zero position, ← List.getElem?_drop, ← whole]
  rfl

theorem Holds.length_le {code bytes : List UInt8} {position : Nat}
    (holds : Holds code position bytes) : bytes.length ≤ code.length := by
  have within := List.IsPrefix.length_le holds
  rw [List.length_drop] at within
  exact within.trans (Nat.sub_le _ _)

/-- **A finished body holds the pieces of an item where the item was emitted**, and the labels that
they mention are bound. -/
theorem holds_of_emits {body : CodeBody Attribute} {front back : List CodeItem} (fresh : Fresh start)
    (reached : front.forM CodeBuilder.item start = .ok ((), before))
    (emits : Emits pieces before after)
    (behind : back.forM CodeBuilder.item after = .ok ((), final))
    (finished : final.finish = .ok body) :
    Holds body.code before.code.size (pieces.flatMap (Piece.encode final.place)) ∧
      ∀ label offset wide, Piece.offset label offset wide ∈ pieces →
        ∃ place, final.offset? label = some place ∧
          (wide = false → -0x8000 ≤ (place : Int) - offset ∧ (place : Int) - offset ≤ 0x7fff) := by
  obtain ⟨earlier, reached⟩ := exists_grows reached
  obtain ⟨later, behind⟩ := exists_grows behind
  have whole := (reached.emits.trans emits).trans behind.emits
  obtain ⟨code, bound, -⟩ := code_of_finish fresh whole finished
  have position : before.code.size = (earlier.flatMap (Piece.encode final.place)).length := by
    rw [reached.emits.size, fresh.code, Piece.length_flatMap_encode]
    exact Nat.zero_add _
  constructor
  · rw [code, position, List.flatMap_append, List.flatMap_append, List.append_assoc, Holds,
      List.drop_left]
    exact List.prefix_append _ _
  · intro label offset wide member
    exact bound label offset wide
      (List.mem_append_left _ (List.mem_append_right _ member))

/-- A label is bound in a finished body where its item stands. -/
theorem placed_of_offset? {label : Label} {place : Nat} (fresh : Fresh start)
    (emitted : items.forM CodeBuilder.item start = .ok ((), final))
    (known : final.offset? label = some place) :
    Placed start items (.bind label) place place := by
  obtain ⟨pieces, grows⟩ := exists_grows emitted
  rcases grows.binds known with unbound | placed
  · rw [fresh.unbound] at unbound
    cases unbound
  · exact placed

/-- An item stands within the code. -/
theorem Placed.le {item : CodeItem} {offset next : Nat}
    (placed : Placed start items item offset next)
    (emitted : items.forM CodeBuilder.item start = .ok ((), final)) :
    offset ≤ final.code.size := by
  obtain ⟨front, back, before, after, rfl, reached, added, rfl, rfl⟩ := placed
  obtain ⟨middle, reached', behind⟩ := forM_append_eq_ok.mp emitted
  rw [reached] at reached'
  cases reached'
  obtain ⟨pieces, grows⟩ := exists_grows behind
  rw [grows.emits.size]
  exact Nat.le_add_right _ _

/-- A label that is bound in a finished body is bound at one place. -/
theorem Placed.offset? {label : Label} {place next : Nat}
    (placed : Placed start items (.bind label) place next)
    (emitted : items.forM CodeBuilder.item start = .ok ((), final)) :
    final.offset? label = some place ∨ final.offset? label = none := by
  obtain ⟨front, back, before, after, rfl, reached, added, rfl, rfl⟩ := placed
  obtain ⟨middle, reached', behind⟩ := forM_append_eq_ok.mp emitted
  rw [reached] at reached'
  cases reached'
  obtain ⟨between, added', behind⟩ := forM_cons_eq_ok.mp behind
  rw [added] at added'
  cases added'
  obtain ⟨pieces, grows⟩ := exists_grows behind
  by_cases inside : label < before.labels.size
  · have bound := offset?_of_bindLabel added label
    rw [if_pos ⟨rfl, inside⟩] at bound
    exact .inl (grows.emits.bound bound)
  · have size : final.labels.size = before.labels.size :=
      grows.emits.labels.trans (adds_of_bindLabel added).emits.labels
    rw [← size] at inside
    exact .inr (by simp [CodeBuilder.offset?, inside])

/-! ## Handlers -/

/-- The offsets of three labels. -/
def offsets (builder : CodeBuilder) (labels : Label × Label × Label) : Nat × Nat × Nat :=
  (builder.place labels.1, builder.place labels.2.1, builder.place labels.2.2)

theorem resolveHandler_eq_ok {builder : CodeBuilder} {handler : PendingHandler} {entry : HandlerEntry}
    (small : ∀ label place, builder.offset? label = some place → place ≤ 0xffff)
    (ended : resolveHandler builder.labels handler = .ok entry) :
    entry.offsets = builder.offsets handler.labels ∧
      ∀ label ∈ [handler.start, handler.stop, handler.target],
        builder.offset? label = some (builder.place label) := by
  obtain ⟨start, startBound, ended⟩ := Except.bind_eq_ok_iff.mp ended
  obtain ⟨stop, stopBound, ended⟩ := Except.bind_eq_ok_iff.mp ended
  obtain ⟨target, targetBound, ended⟩ := Except.bind_eq_ok_iff.mp ended
  cases ended
  rw [labelOffset_eq_ok] at startBound stopBound targetBound
  have number (place : Nat) (fits : place ≤ 0xffff) : (UInt16.ofNat place).toNat = place :=
    UInt16.toNat_ofNat_of_lt' (Nat.lt_succ_of_le fits)
  constructor
  · simp only [HandlerEntry.offsets, offsets, PendingHandler.labels, place, startBound, stopBound,
      targetBound, Option.getD_some, number _ (small _ _ startBound), number _ (small _ _ stopBound),
      number _ (small _ _ targetBound)]
  · simp [place, startBound, stopBound, targetBound]

theorem resolveHandlers_eq_ok {builder : CodeBuilder} {handlers : List PendingHandler}
    {entries : List HandlerEntry}
    (small : ∀ label place, builder.offset? label = some place → place ≤ 0xffff)
    (ended : handlers.mapM (resolveHandler builder.labels) = .ok entries) :
    entries.map HandlerEntry.offsets = (handlers.map PendingHandler.labels).map builder.offsets ∧
      ∀ handler ∈ handlers, ∀ label ∈ [handler.start, handler.stop, handler.target],
        builder.offset? label = some (builder.place label) := by
  induction handlers generalizing entries with
  | nil =>
    rw [List.mapM_nil, Except.pure_eq_ok_iff] at ended
    subst ended
    exact ⟨rfl, nofun⟩
  | cons first rest ih =>
    simp only [List.mapM_cons, Except.bind_eq_ok_iff, Except.pure_eq_ok_iff] at ended
    obtain ⟨entry, resolved, others, ended, rfl⟩ := ended
    obtain ⟨offsets, bound⟩ := resolveHandler_eq_ok small resolved
    obtain ⟨offsets', bound'⟩ := ih ended
    refine ⟨?_, List.forall_mem_cons.mpr ⟨bound, bound'⟩⟩
    rw [List.map_cons, List.map_cons, List.map_cons, offsets, offsets']

/-- **The handlers of a finished body are where their labels are**, in the order of their items. -/
theorem handlers_of_finish {body : CodeBody Attribute} (fresh : Fresh start)
    (emitted : items.forM CodeBuilder.item start = .ok ((), final))
    (finished : final.finish = .ok body) :
    body.handlers.map HandlerEntry.offsets =
        (items.flatMap CodeItem.guards).map final.offsets ∧
      ∀ guard ∈ items.flatMap CodeItem.guards, ∀ label ∈ [guard.1, guard.2.1, guard.2.2],
        final.offset? label = some (final.place label) := by
  obtain ⟨pieces, grows⟩ := exists_grows emitted
  have guards : final.handlers.toList.map PendingHandler.labels = items.flatMap CodeItem.guards := by
    rw [grows.guards, fresh.handlers]
    rfl
  unfold finish at finished
  split at finished
  · cases finished
  · next fits =>
    obtain ⟨code, patched, finished⟩ := Except.bind_eq_ok_iff.mp finished
    obtain ⟨entries, resolved, finished⟩ := Except.bind_eq_ok_iff.mp finished
    cases finished
    have small (label : Label) (place : Nat) (known : final.offset? label = some place) :
        place ≤ 0xffff :=
      ((placed_of_offset? fresh emitted known).le emitted).trans (Nat.le_of_not_lt fits)
    obtain ⟨offsets, bound⟩ := resolveHandlers_eq_ok small resolved
    rw [guards] at offsets
    refine ⟨offsets, ?_⟩
    intro guard member
    rw [← guards] at member
    obtain ⟨handler, inside, rfl⟩ := List.mem_map.mp member
    exact bound handler inside

/-! ## The pieces of items that transfer control -/

theorem lays_seq {β : Type} {step : Assembling α} {next : α → Assembling β}
    (first : Within (Lays pieces) step) (rest : ∀ value, Within (Lays others) (next value)) :
    Within (Lays (pieces ++ others)) (step >>= next) := by
  intro before result after ended
  obtain ⟨value, middle, began, ended⟩ := Assembling.exists_of_bind ended
  exact (first before value middle began).trans (rest value middle result after ended)

theorem lays_quiet_seq {β : Type} {step : Assembling α} {next : α → Assembling β}
    (first : Within (Lays []) step) (rest : ∀ value, Within (Lays pieces) (next value)) :
    Within (Lays pieces) (step >>= next) :=
  lays_seq first rest

theorem lays_seq_quiet {β : Type} {step : Assembling α} {next : α → Assembling β}
    (first : Within (Lays pieces) step) (rest : ∀ value, Within (Lays []) (next value)) :
    Within (Lays pieces) (step >>= next) := by
  rw [← List.append_nil pieces]
  exact lays_seq first rest

theorem lays_emit (bytes : List UInt8) : Within (Lays (Piece.ofBytes bytes)) (emit bytes) :=
  within_modify fun builder => lays_bytes builder bytes

theorem lays_emitOffset (label : Label) (start : Nat) (wide : Bool) :
    Within (Lays [.offset label start wide]) (emitOffset label start wide) := by
  intro before result after ended
  cases ended
  exact lays_offset before label start wide

theorem lays_emitSwitchOffset (label : Label) (start : Nat) :
    Within (Lays [.offset label start true]) (emitSwitchOffset label start) :=
  lays_quiet_seq quiet_lays.within_get fun _ =>
    lays_quiet_seq (quiet_lays.within_learnTarget _ _) fun _ => lays_emitOffset label start true

theorem lays_forM {visited : List α} {visit : α → Assembling PUnit} {lay : α → List Piece}
    (each : ∀ item, Within (Lays (lay item)) (visit item)) :
    Within (Lays (visited.flatMap lay)) (visited.forM visit) := by
  rw [List.forM_eq_forM]
  induction visited with
  | nil => exact quiet_lays.within_pure _
  | cons first rest ih =>
    rw [List.forM_cons, List.flatMap_cons]
    exact lays_seq (each first) fun _ => ih

theorem lays_of_emitJump {byte : UInt8} {target : Label}
    (ended : emitJump byte target before = .ok ((), after)) :
    ∃ op pops, Opcode.ofByte? byte = some op ∧ branchPops op = some pops ∧
      Lays [.byte op.byte, .offset target before.code.size false] before after := by
  unfold emitJump at ended
  cases named : Opcode.ofByte? byte with
  | none =>
    rw [named] at ended
    cases ended
  | some op =>
    cases branches : branchPops op with
    | none =>
      simp only [named, branches, Option.bind_some, Option.map_none] at ended
      cases ended
    | some pops =>
      simp only [named, branches, Option.bind_some, Option.map_some] at ended
      obtain ⟨_, popped, adjusted, ended⟩ := Assembling.exists_of_bind ended
      have quiet := quiet_lays.within_adjust pops 0 _ _ _ adjusted
      obtain ⟨_, _, got, ended⟩ := Assembling.exists_of_bind ended
      cases got
      obtain ⟨_, _, got, ended⟩ := Assembling.exists_of_bind ended
      cases got
      have rest : Within (Lays [.byte op.byte, .offset target popped.code.size false]) (do
          learnTarget target (if op = .jsr then popped.depth + 1 else popped.depth)
          emitOp op []
          emitOffset target popped.code.size false
          if op = .goto then
            endBlock) := by
        refine lays_quiet_seq (quiet_lays.within_learnTarget _ _) fun _ =>
          lays_seq (lays_emit [op.byte]) fun _ =>
            lays_seq_quiet (lays_emitOffset target _ false) fun _ => ?_
        split
        · exact quiet_lays.within_endBlock
        · exact quiet_lays.within_pure _
      have size : popped.code.size = before.code.size := quiet.emits.size
      rw [← size]
      exact ⟨op, pops, rfl, branches, quiet.trans (rest popped _ _ ended)⟩

/-- The bytes of a return from a subroutine. -/
def retBytes (index : UInt16) : List UInt8 :=
  if index ≤ 0xff then [Opcode.ret.byte, index.toUInt8]
  else Opcode.wide.byte :: Opcode.ret.byte :: Writer.u16 index

theorem lays_emitRet (index : UInt16) :
    Within (Lays (Piece.ofBytes (retBytes index))) (emitRet index) := by
  unfold emitRet retBytes
  refine lays_quiet_seq (quiet_lays.within_touchLocal _ _) fun _ => ?_
  split
  · exact lays_seq_quiet (lays_emit _) fun _ => quiet_lays.within_endBlock
  · exact lays_seq_quiet (lays_emit _) fun _ => quiet_lays.within_endBlock

/-- The fillers between the opcode of a switch and its operands. -/
def fillers (start : Nat) : List UInt8 :=
  List.replicate ((4 - (start + 1) % 4) % 4) 0

/-- The pieces of a switch at an offset. -/
def switchPieces (op : Opcode) (start : Nat) (operands : List Piece) : List Piece :=
  Piece.ofBytes [op.byte] ++ (Piece.ofBytes (fillers start) ++ operands)

/-- The operands of a switch over a range. -/
def tableOperands (low : Int32) (default : Label) (targets : List Label) (start : Nat) :
    List Piece :=
  [.offset default start true] ++ (Piece.ofBytes (Writer.u32 low.toUInt32) ++
    (Piece.ofBytes (Writer.u32 (low + (Int32.ofNat targets.length - 1)).toUInt32) ++
      targets.flatMap fun target => [.offset target start true]))

/-- The operands of a switch over pairs. -/
def lookupOperands (default : Label) (pairs : List (Int32 × Label)) (start : Nat) : List Piece :=
  [.offset default start true] ++ (Piece.ofBytes (Writer.u32 (UInt32.ofNat pairs.length)) ++
    (sortPairs pairs).flatMap fun pair =>
      Piece.ofBytes (Writer.u32 pair.1.toUInt32) ++ [.offset pair.2 start true])

/-- The first pair with a key is the same before and after sorting. -/
theorem find?_sortPairs (key : Int32) (pairs : List (Int32 × Label)) :
    (sortPairs pairs).find? (·.1 = key) = pairs.find? (·.1 = key) := by
  have equal (pair) (member : pair ∈ pairs.filter (·.1 = key)) : pair.1 = key := by
    simpa using (List.mem_filter.mp member).2
  have sublist : (pairs.filter (·.1 = key)).Sublist (sortPairs pairs) := by
    apply List.sublist_mergeSort
    · intro a b c
      simpa using Int32.le_trans
    · intro a b
      simpa using Int32.le_total a.1 b.1
    · apply List.pairwise_of_forall_mem_list
      intro a first b second
      simp [equal a first, equal b second]
    · exact List.filter_sublist
  have perm := (List.mergeSort_perm pairs fun left right => left.1 ≤ right.1).filter (·.1 = key)
  have same : pairs.filter (·.1 = key) = (sortPairs pairs).filter (·.1 = key) := by
    have kept := sublist.filter (·.1 = key)
    rw [List.filter_filter] at kept
    simp only [Bool.and_self] at kept
    exact kept.eq_of_length perm.length_eq.symm
  rw [← List.head?_filter, ← List.head?_filter, same]
/-- A switch begins with its opcode and with fillers up to a multiple of four. -/
theorem lays_of_opening {op : Opcode} {operands : Nat → List Piece} (next : Nat → Assembling Unit)
    (rest : ∀ start, Within (Lays (operands start)) (next start))
    (ended : (do
      adjust 1 0
      let start := (← get).code.size
      emitOp op []
      pad
      next start : Assembling Unit) before = .ok ((), after)) :
    Lays (switchPieces op before.code.size (operands before.code.size)) before after := by
  obtain ⟨_, popped, adjusted, ended⟩ := Assembling.exists_of_bind ended
  have quiet := quiet_lays.within_adjust 1 0 _ _ _ adjusted
  have size : popped.code.size = before.code.size := quiet.emits.size
  obtain ⟨_, _, got, ended⟩ := Assembling.exists_of_bind ended
  cases got
  obtain ⟨_, opened, emitted, ended⟩ := Assembling.exists_of_bind ended
  have opening := lays_emit [op.byte] _ _ _ emitted
  have opened : opened.code.size = before.code.size + 1 := by
    rw [opening.emits.size, size]
    rfl
  obtain ⟨_, padded, filled, ended⟩ := Assembling.exists_of_bind ended
  have filling := lays_emit _ _ _ _ filled
  have operands := rest _ _ _ _ ended
  rw [opened] at filling
  rw [size] at operands
  exact quiet.trans (opening.trans (filling.trans operands))

theorem lays_of_emitTableswitch {low : Int32} {default : Label} {targets : List Label}
    (ended : emitTableswitch low default targets before = .ok ((), after)) :
    Lays (switchPieces .tableswitch before.code.size
      (tableOperands low default targets before.code.size)) before after := by
  have operands (start : Nat) : Within (Lays (tableOperands low default targets start)) (do
      emitSwitchOffset default start
      emit (Writer.u32 low.toUInt32)
      emit (Writer.u32 (low + (Int32.ofNat targets.length - 1)).toUInt32)
      targets.forM fun target => emitSwitchOffset target start
      endBlock) :=
    lays_seq (lays_emitSwitchOffset default start) fun _ => lays_seq (lays_emit _) fun _ =>
      lays_seq (lays_emit _) fun _ => lays_seq_quiet
        (lays_forM fun target => lays_emitSwitchOffset target start) fun _ =>
      quiet_lays.within_endBlock
  exact lays_of_opening _ operands ended

theorem lays_of_emitLookupswitch {default : Label} {pairs : List (Int32 × Label)}
    (ended : emitLookupswitch default pairs before = .ok ((), after)) :
    Lays (switchPieces .lookupswitch before.code.size
      (lookupOperands default pairs before.code.size)) before after := by
  have operands (start : Nat) : Within (Lays (lookupOperands default pairs start)) (do
      emitSwitchOffset default start
      emit (Writer.u32 (UInt32.ofNat pairs.length))
      (sortPairs pairs).forM fun pair => do
        emit (Writer.u32 pair.1.toUInt32)
        emitSwitchOffset pair.2 start
      endBlock) :=
    lays_seq (lays_emitSwitchOffset default start) fun _ => lays_seq (lays_emit _) fun _ =>
      lays_seq_quiet (lays_forM fun pair =>
        lays_seq (lays_emit _) fun _ => lays_emitSwitchOffset pair.2 start) fun _ =>
      quiet_lays.within_endBlock
  exact lays_of_opening _ operands ended

end CodeBuilder

end JavaMachine
