import JavaMachine.Builtin
import JavaMachine.Machine.Execution
import JavaMachine.Proofs.Assembler.Code

/-! # The room a body is given for its operands

While a body is assembled, the greatest depth that its stack reaches is recorded, and the body is
given room for it. What is recorded are the depths that instructions leave behind. A label that is
bound where control does not arrive starts at the depth that is known of it, and that is not
recorded: so the room is enough for the depths along the body if it is enough at these labels
(`CodeBuilder.depth_le_maxStack`), and it need not be: what a handler is to catch may not fit. -/

namespace JavaMachine

namespace CodeBuilder

variable {builder start final : CodeBuilder} {items : List CodeItem} {limit : Nat}

/-- If the depth was recorded, or is within a limit, it still is. -/
structure Tracks (limit : Nat) (before after : CodeBuilder) : Prop where
  grows : before.maxDepth ≤ after.maxDepth
  covered : before.depth ≤ max before.maxDepth limit → after.depth ≤ max after.maxDepth limit

theorem closed_tracks (limit : Nat) : Closed (Tracks limit) where
  trans near far := ⟨near.grows.trans far.grows, far.covered ∘ near.covered⟩
  pool _ := ⟨le_rfl, id⟩
  slots _ _ := ⟨le_max_left _ _, fun _ => (le_max_right _ _).trans (le_max_left _ _)⟩
  ends _ := ⟨le_rfl, id⟩
  rest _ _ _ _ _ _ _ _ := ⟨le_rfl, id⟩

/-- The labels of a body that are bound where control does not arrive are within a limit. -/
def Shallow (limit : Nat) (start : CodeBuilder) (items : List CodeItem) : Prop :=
  ∀ front label back builder, items = front ++ .bind label :: back →
    front.forM CodeBuilder.item start = .ok ((), builder) → builder.reachable = false →
    (builder.arriveAt label).depth ≤ limit

theorem forM_cons_eq_ok {first : CodeItem} {rest : List CodeItem} :
    (first :: rest).forM CodeBuilder.item start = .ok ((), final) ↔
      ∃ middle, CodeBuilder.item first start = .ok ((), middle) ∧
        rest.forM CodeBuilder.item middle = .ok ((), final) := by
  constructor
  · intro ended
    obtain ⟨_, middle, began, ended⟩ := Assembling.exists_of_bind ended
    exact ⟨middle, began, ended⟩
  · rintro ⟨middle, began, ended⟩
    exact Except.bind_eq_ok_iff.mpr ⟨((), middle), began, ended⟩

theorem forM_append_eq_ok {front back : List CodeItem} :
    (front ++ back).forM CodeBuilder.item start = .ok ((), final) ↔
      ∃ middle, front.forM CodeBuilder.item start = .ok ((), middle) ∧
        back.forM CodeBuilder.item middle = .ok ((), final) := by
  induction front generalizing start with
  | nil =>
    constructor
    · exact fun emitted => ⟨start, rfl, emitted⟩
    · rintro ⟨middle, same, emitted⟩
      cases same
      exact emitted
  | cons first rest ih =>
    rw [List.cons_append, forM_cons_eq_ok]
    constructor
    · rintro ⟨middle, began, emitted⟩
      obtain ⟨between, front, back⟩ := ih.mp emitted
      exact ⟨between, forM_cons_eq_ok.mpr ⟨middle, began, front⟩, back⟩
    · rintro ⟨between, front, back⟩
      obtain ⟨middle, began, emitted⟩ := forM_cons_eq_ok.mp front
      exact ⟨middle, began, ih.mpr ⟨between, emitted, back⟩⟩

theorem Shallow.first {first : CodeItem} {rest : List CodeItem} {middle : CodeBuilder}
    (shallow : Shallow limit start (first :: rest))
    (began : CodeBuilder.item first start = .ok ((), middle)) : Tracks limit start middle := by
  by_cases bound : ∃ label, first = .bind label
  · obtain ⟨label, rfl⟩ := bound
    rcases bindLabel_cases began with ⟨-, labels, rfl⟩ | ⟨unreachable, rfl⟩
    · exact ⟨le_rfl, id⟩
    · have depth := shallow [] label rest start rfl rfl unreachable
      exact ⟨le_rfl, fun _ => depth.trans (le_max_right _ _)⟩
  · have unbound : ∀ label, first = .bind label → ∀ builder : CodeBuilder,
        builder.reachable = false → Tracks limit builder (builder.arriveAt label) :=
      fun label same => absurd ⟨label, same⟩ bound
    exact (closed_tracks limit).within_item first unbound start () middle began

theorem Shallow.behind {front back : List CodeItem} (shallow : Shallow limit start (front ++ back))
    (reached : front.forM CodeBuilder.item start = .ok ((), builder)) :
    Shallow limit builder back := by
  intro inner label rest other split emitted
  exact shallow (front ++ inner) label rest other (by rw [split, List.append_assoc])
    (forM_append_eq_ok.mpr ⟨builder, reached, emitted⟩)

/-- Along a body, what is recorded grows, and covers the depth up to the limit. -/
theorem tracks_of_items (shallow : Shallow limit start items)
    (emitted : items.forM CodeBuilder.item start = .ok ((), final)) : Tracks limit start final := by
  induction items generalizing start with
  | nil =>
    cases emitted
    exact ⟨le_rfl, id⟩
  | cons first rest ih =>
    obtain ⟨middle, began, emitted⟩ := forM_cons_eq_ok.mp emitted
    have whole : Shallow limit start ([first] ++ rest) := shallow
    have behind := whole.behind (forM_cons_eq_ok.mpr ⟨middle, began, rfl⟩)
    exact (closed_tracks limit).trans (shallow.first began) (ih behind emitted)

theorem Shallow.of_append {front back : List CodeItem} (shallow : Shallow limit start (front ++ back)) :
    Shallow limit start front := by
  intro inner label rest builder split
  exact shallow inner label (rest ++ back) builder (by rw [split, List.append_assoc]; rfl)

theorem maxStack_of_finish {body : CodeBody Attribute} (finished : final.finish = .ok body) :
    body.maxStack = final.chosenMaxStack.getD (UInt16.ofNat final.maxDepth) := by
  unfold finish at finished
  split at finished
  · cases finished
  · obtain ⟨code, -, finished⟩ := Except.bind_eq_ok_iff.mp finished
    obtain ⟨handlers, -, finished⟩ := Except.bind_eq_ok_iff.mp finished
    cases finished
    rfl

/-- **The room for operands covers the depths along the body**, if its size was not chosen otherwise
and fits its two bytes, and if it is enough at the labels that are bound where control does not
arrive. -/
theorem depth_le_maxStack {body : CodeBody Attribute} (fresh : start.depth = 0)
    (emitted : items.forM CodeBuilder.item start = .ok ((), final))
    (finished : final.finish = .ok body) (unchosen : final.chosenMaxStack = none)
    (fits : final.maxDepth < 2 ^ 16) (shallow : Shallow body.maxStack.toNat start items)
    {front back : List CodeItem} (split : items = front ++ back)
    (reached : front.forM CodeBuilder.item start = .ok ((), builder)) :
    builder.depth ≤ body.maxStack.toNat := by
  have size : body.maxStack.toNat = final.maxDepth := by
    rw [maxStack_of_finish finished, unchosen]
    exact UInt16.toNat_ofNat_of_lt' fits
  rw [size] at shallow ⊢
  subst split
  obtain ⟨middle, before, after⟩ := forM_append_eq_ok.mp emitted
  have same : builder = middle := by
    rw [reached] at before
    cases before
    rfl
  subst same
  have grows := (tracks_of_items (shallow.behind reached) after).grows
  have covered := (tracks_of_items shallow.of_append reached).covered (fresh ▸ Nat.zero_le _)
  exact covered.trans (max_le grows le_rfl)

/-- A body of a method without parameters, before anything is emitted. -/
def fresh : CodeBuilder where
  pool := {}
  labels := #[]
  maxLocals := 0

end CodeBuilder

/-! ## A body that catches what it calls -/

/-- Calls a method and handles whatever it throws by forgetting it. -/
def catching : List CodeItem := [
  .handler 0 1 2 none,
  .bind 0,
  .call .static "Main" "fail" "()V",
  .bind 1,
  .plain Opcode.returnVoid.byte,
  .bind 2,
  .plain Opcode.pop.byte,
  .plain Opcode.returnVoid.byte]

/-- A class with that body, and with a method that throws. -/
def catchingScripts : List ClassScript := [
  ⟨ClassName.object, none, []⟩,
  ⟨ClassName.throwable, some ClassName.object, []⟩,
  ⟨"Main", some ClassName.object, [
    .method Builtin.publicStatic "fail" "()V" 0
      [.classUse .new ClassName.throwable, .plain Opcode.athrow.byte],
    .method Builtin.publicStatic "try" "()V" 3 catching]⟩]

def catchingSetup : Setup where
  sources := match catchingScripts.mapM Builtin.fileOf with
    | .ok files => [.ofClasses files]
    | .error _ => []
  limits := {}
  stringClass := default
  natives := []

/-- Calls the method that catches. -/
def tryIt : Exec (Option Value) := do
  Exec.invoke (← Exec.load "Main") 1 []

/-- The error that an action has failed with. -/
def fatal? {σ α : Type} : EStateM.Result Interruption σ α → Option Error
  | .error (.fatal error) _ => some error
  | _ => none

/-- **There may be no room for what is caught**: the label of the handler is bound at depth one, where
control does not arrive, and with nothing recorded. The body gets no room, so that catching ends with
an error. -/
theorem overflow_of_caught :
    ((catching.take 6).forM CodeBuilder.item
        { CodeBuilder.fresh with labels := Array.replicate 3 {} }).toOption.map
        (fun ended => (ended.2.depth, ended.2.maxDepth)) = some (1, 0) ∧
      fatal? (tryIt (catchingSetup.services 8) {}) =
        some (.virtualMachine (.stackOverflow ⟨"Main", "try"⟩ 0)) := by
  decide +kernel

end JavaMachine
