import JavaMachine.Instruction.Execute
import JavaMachine.Proofs.Machine.Informed

/-! # What is known of what instructions give

The rules for the simplest actions and for sequences lead to every instruction, whatever bytes it is
made of: if it calls a method, then a known one. How elements are stored in arrays and how arrays of
arrays are made is left to each property to show, as it depends on what the machine holds. -/

namespace JavaMachine.Informed

variable {known : Knowledge} {pool : known.Pool}
  {OfExec : ∀ {α : Type}, (α → Prop) → Exec α → Prop}
  {OfStep : ∀ {α : Type}, (α → Prop) → Step α → Prop} (closed : Informed known pool OfExec OfStep)
  {α β : Type} {gives wanted : α → Prop}

include closed

/-! ## Operands, constants and links -/

theorem step_weaken {action : Step α} (holds : OfStep gives action)
    (imply : ∀ value, gives value → wanted value) : OfStep wanted action := by
  rw [← bind_pure action]
  exact closed.step_bind holds fun value given => closed.step_pure (imply value given)

theorem step_fail (error : Error) : OfStep gives (liftM (Exec.fail error : Exec α)) :=
  closed.step_onMachine (closed.exec_fail error)

theorem step_fault (fault : InstructionFault) : OfStep gives (Step.fault fault) :=
  closed.step_bind closed.step_frame fun _ _ => closed.step_throw _

theorem step_readByte : OfStep anything Step.readByte := by
  refine closed.step_bind closed.step_cursor fun cursor _ => ?_
  refine closed.step_bind closed.step_frame fun frame _ => ?_
  split
  · exact closed.step_bind (closed.step_seek _) fun _ _ => closed.step_pure trivial
  · exact closed.step_fault _

theorem step_readShort : OfStep anything Step.readShort :=
  closed.step_bind closed.step_readByte fun _ _ =>
    closed.step_bind closed.step_readByte fun _ _ => closed.step_pure trivial

theorem step_readInt : OfStep anything Step.readInt :=
  closed.step_bind closed.step_readShort fun _ _ =>
    closed.step_bind closed.step_readShort fun _ _ => closed.step_pure trivial

theorem step_readSignedByte : OfStep anything Step.readSignedByte :=
  closed.step_bind closed.step_readByte fun _ _ => closed.step_pure trivial

theorem step_readSignedShort : OfStep anything Step.readSignedShort :=
  closed.step_bind closed.step_readShort fun _ _ => closed.step_pure trivial

theorem step_branch (offset : Int32) : OfStep anything (Step.branch offset) := by
  have target : OfStep anything (Step.targetOf offset) := by
    refine closed.step_bind closed.step_frame fun frame _ => ?_
    dsimp only
    split
    · exact closed.step_pure trivial
    · exact closed.step_fault _
  exact closed.step_bind target fun _ _ => closed.step_seek _

theorem step_throwNew (className : String) (detail : Option String) :
    OfStep gives (liftM (Exec.throwNew className detail : Exec α)) :=
  closed.step_onMachine (closed.exec_throwNew className detail)

theorem step_popObject : OfStep anything Step.popObject := by
  refine closed.step_bind (closed.step_onFrame _) fun reference _ => ?_
  split
  · exact closed.step_pure trivial
  · exact closed.step_throwNew _ _

theorem step_classAt (index : UInt16) : OfStep known.Class (Step.classAt index) := by
  refine closed.step_bind (closed.step_constantAt index) fun constant isConstant => ?_
  split
  · exact closed.step_weaken (closed.step_classNamed isConstant rfl) fun _ => known.ofNamed
  · exact closed.step_fault _

theorem step_checkKind (op : Opcode) (type : FieldType) (value : Value) :
    OfStep (fun _ => value.kind = .value type.kind) (Step.checkKind op type value) := by
  unfold Step.checkKind
  split
  · exact closed.step_fault _
  · next same => exact closed.step_pure (not_not.mp same)

theorem step_object (ref : Ref) : OfStep known.Object (liftM (Exec.object ref) : Step HeapObject) :=
  closed.step_onMachine (closed.exec_object ref)

/-! ## Locals, constants and stack slots -/

theorem step_load (op : Opcode) (kind : ValueKind) (index : Nat) :
    OfStep anything (Step.load op kind index) :=
  closed.step_bind (closed.step_onFrame _) fun _ _ =>
    closed.step_check (closed.step_fault _) fun _ => closed.step_onFrame _

theorem step_store (op : Opcode) (kind : ValueKind) (index : Nat) :
    OfStep anything (Step.store op kind index) :=
  closed.step_bind (closed.step_onFrame _) fun _ _ =>
    closed.step_check (closed.step_fault _) fun _ => closed.step_onFrame _

theorem step_increment (index : Nat) (delta : Int32) : OfStep anything (Step.increment index delta) := by
  refine closed.step_bind (closed.step_onFrame _) fun value _ => ?_
  split
  · exact closed.step_onFrame _
  · exact closed.step_fault _

theorem step_pushSlots (slots : List Value) :
    OfStep anything (slots.forM fun slot => (liftM (Frame.pushSlot slot) : Step Unit)) := by
  rw [List.forM_eq_forM]
  induction slots with
  | nil => exact closed.step_pure trivial
  | cons first rest ih =>
    rw [List.forM_cons]
    exact closed.step_bind (closed.step_onFrame _) fun _ _ => ih

theorem step_duplicate (count skip : Nat) : OfStep anything (Step.duplicate count skip) :=
  closed.step_bind (closed.step_onFrame _) fun _ _ =>
    closed.step_bind (closed.step_onFrame _) fun _ _ => closed.step_pushSlots _

theorem step_swap : OfStep anything Step.swap :=
  closed.step_bind (closed.step_onFrame _) fun _ _ =>
    closed.step_bind (closed.step_onFrame _) fun _ _ =>
      closed.step_bind (closed.step_onFrame _) fun _ _ => closed.step_onFrame _

theorem step_loadConstant (index : UInt16) : OfStep anything (Step.loadConstant index) := by
  refine closed.step_bind (closed.step_constantAt index) fun constant _ => ?_
  split
  · exact closed.step_onFrame _
  · exact closed.step_onFrame _
  · exact closed.step_bind (closed.step_onMachine (closed.exec_intern _)) fun _ _ =>
      closed.step_onFrame _
  · exact closed.step_fault _

theorem step_loadWideConstant (index : UInt16) : OfStep anything (Step.loadWideConstant index) := by
  refine closed.step_bind (closed.step_constantAt index) fun constant _ => ?_
  split
  · exact closed.step_onFrame _
  · exact closed.step_onFrame _
  · exact closed.step_fault _

/-! ## Arithmetic -/

/-- An instruction that takes a value from the stack and pushes another one. -/
theorem step_unary {α : Type} (pop : FrameM α) (push : α → Value)
    [Frame.Used pop] :
    OfStep anything (do
      let a ← Step.onFrame pop
      Step.onFrame (Frame.push (push a))) :=
  closed.step_bind (closed.step_onFrame _) fun _ _ => closed.step_onFrame _

/-- An instruction that takes two values from the stack and pushes another one. -/
theorem step_binary {α β : Type} (popSecond : FrameM α) (popFirst : FrameM β)
    (push : β → α → Value) [Frame.Used popSecond]
    [Frame.Used popFirst] :
    OfStep anything (do
      let b ← Step.onFrame popSecond
      let a ← Step.onFrame popFirst
      Step.onFrame (Frame.push (push a b))) :=
  closed.step_bind (closed.step_onFrame _) fun _ _ =>
    closed.step_unary _ _

theorem step_pushQuotient (result : Option Value) : OfStep anything (Step.pushQuotient result) := by
  unfold Step.pushQuotient
  split
  · exact closed.step_onFrame _
  · exact closed.step_throwNew _ _

theorem step_arithmetic (op : ArithmeticOp) (kind : NumberKind) :
    OfStep anything (Step.arithmetic op kind) := by
  cases kind with
  | int | long =>
    exact closed.step_bind (closed.step_onFrame _) fun _ _ =>
      closed.step_bind (closed.step_onFrame _) fun _ _ => closed.step_pushQuotient _
  | float | double => exact closed.step_binary _ _ _

theorem step_negate (kind : NumberKind) : OfStep anything (Step.negate kind) := by
  cases kind <;> exact closed.step_unary _ _

theorem step_shift (op : ShiftOp) (kind : IntegerKind) : OfStep anything (Step.shift op kind) := by
  cases kind <;> exact closed.step_binary _ _ _

theorem step_bitwise (op : BitwiseOp) (kind : IntegerKind) :
    OfStep anything (Step.bitwise op kind) := by
  cases kind <;> exact closed.step_binary _ _ _

theorem step_convert (source target : NumberKind) : OfStep anything (Step.convert source target) := by
  cases source <;> exact closed.step_unary _ _

/-! ## Control -/

theorem step_branchIf (condition : Bool) : OfStep anything (Step.branchIf condition) := by
  refine closed.step_bind closed.step_readSignedShort fun offset _ => ?_
  split
  · exact closed.step_branch offset
  · exact closed.step_pure trivial

/-- A branch that depends on a value on the stack. -/
theorem step_branchOn {α : Type} (pop : FrameM α) (condition : α → Bool)
    [Frame.Used pop] :
    OfStep anything (do
      let a ← Step.onFrame pop
      Step.branchIf (condition a)) :=
  closed.step_bind (closed.step_onFrame _) fun _ _ => closed.step_branchIf _

/-- A branch that depends on two values on the stack. -/
theorem step_branchOnTwo {α β : Type} (popSecond : FrameM α) (popFirst : FrameM β)
    (condition : β → α → Bool) [Frame.Used popSecond]
    [Frame.Used popFirst] :
    OfStep anything (do
      let b ← Step.onFrame popSecond
      let a ← Step.onFrame popFirst
      Step.branchIf (condition a b)) :=
  closed.step_bind (closed.step_onFrame _) fun _ _ =>
    closed.step_branchOn _ _

theorem step_jump (offset : Int32) : OfStep anything (Step.jump offset) :=
  closed.step_bind closed.step_cursor fun _ _ =>
    closed.step_bind (closed.step_onFrame _) fun _ _ => closed.step_branch offset

theorem step_ret (index : Nat) : OfStep anything (Step.ret index) := by
  refine closed.step_bind (closed.step_onFrame _) fun value _ => ?_
  split
  · exact closed.step_seek _
  · exact closed.step_fault _

theorem step_alignOperands : OfStep anything Step.alignOperands :=
  closed.step_bind closed.step_frame fun _ _ => closed.step_seek _

theorem step_tableSwitch : OfStep anything Step.tableSwitch := by
  refine closed.step_bind (closed.step_onFrame _) fun index _ => ?_
  refine closed.step_bind closed.step_alignOperands fun _ _ => ?_
  refine closed.step_bind closed.step_readInt fun default _ => ?_
  refine closed.step_bind closed.step_readInt fun low _ => ?_
  refine closed.step_bind closed.step_readInt fun high _ => ?_
  refine closed.step_check (closed.step_fault _) fun _ => ?_
  split
  · exact closed.step_branch default
  · exact closed.step_bind closed.step_cursor fun _ _ =>
      closed.step_bind (closed.step_seek _) fun _ _ =>
        closed.step_bind closed.step_readInt fun _ _ => closed.step_branch _

theorem step_findPair (key : Int32) (pairs : Nat) : OfStep anything (Step.findPair key pairs) := by
  induction pairs with
  | zero => exact closed.step_pure trivial
  | succ pairs ih =>
    refine closed.step_bind closed.step_readInt fun candidate _ => ?_
    refine closed.step_bind closed.step_readInt fun offset _ => ?_
    split
    · exact closed.step_pure trivial
    · exact ih

theorem step_lookupSwitch : OfStep anything Step.lookupSwitch := by
  refine closed.step_bind (closed.step_onFrame _) fun key _ => ?_
  refine closed.step_bind closed.step_alignOperands fun _ _ => ?_
  refine closed.step_bind closed.step_readInt fun default _ => ?_
  refine closed.step_bind closed.step_readInt fun pairs _ => ?_
  refine closed.step_check (closed.step_fault _) fun _ => ?_
  exact closed.step_bind (closed.step_findPair _ _) fun _ _ => closed.step_branch _

theorem step_wide : OfStep anything Step.wide := by
  refine closed.step_bind closed.step_readByte fun byte _ => ?_
  refine closed.step_bind closed.step_readShort fun index _ => ?_
  dsimp only
  split
  · exact closed.step_load _ _ _
  · exact closed.step_store _ _ _
  · exact closed.step_bind closed.step_readSignedShort fun _ _ => closed.step_increment _ _
  · exact closed.step_ret _
  · exact closed.step_fault _

theorem step_returnValue (kind : ValueKind) : OfStep known.Next (Step.returnValue kind) := by
  have narrowed (value : Value) : OfStep anything (Step.narrowResult value) := by
    refine closed.step_bind closed.step_frame fun frame _ => ?_
    split
    · exact closed.step_pure trivial
    · exact closed.step_pure trivial
  cases kind with
  | int =>
    exact closed.step_bind (closed.step_onFrame _) fun _ _ =>
      closed.step_bind (narrowed _) fun _ _ => closed.step_pure trivial
  | long | float | double | reference =>
    exact closed.step_bind (closed.step_onFrame _) fun _ _ => closed.step_pure trivial

/-! ## Fields -/

omit closed in
theorem finds_static {index : UInt16} {symbol : FieldSymbol}
    (constant : pool.Constant index (.fieldref symbol)) {c : LinkedClass} {link : Linkage}
    (isKnown : known.Named symbol.owner c) (found : symbol.findStatic c = .ok link) :
    pool.Link index link := by
  unfold FieldSymbol.findStatic at found
  split at found
  · next owner field declared =>
    split at found
    · next typed =>
      cases found
      exact pool.linkStatic constant isKnown declared typed
    · cases found
  · cases found

omit closed in
theorem finds_instance {index : UInt16} {symbol : FieldSymbol}
    (constant : pool.Constant index (.fieldref symbol)) {c : LinkedClass} {link : Linkage}
    (isKnown : known.Named symbol.owner c) (found : symbol.findInstance c = .ok link) :
    pool.Link index link := by
  unfold FieldSymbol.findInstance at found
  split at found
  · next field declared =>
    split at found
    · next typed =>
      cases found
      exact pool.linkInstance constant isKnown declared typed
    · cases found
  · cases found

theorem step_fieldSymbolAt (index : UInt16) :
    OfStep (fun symbol => pool.Constant index (.fieldref symbol)) (Step.fieldSymbolAt index) := by
  refine closed.step_bind (closed.step_constantAt index) fun constant isConstant => ?_
  split
  · exact closed.step_pure isConstant
  · exact closed.step_fault _

theorem step_ensureInitialized {c : LinkedClass} (isKnown : known.Class c) :
    OfStep anything (liftM (Exec.ensureInitialized c) : Step Unit) :=
  closed.step_onMachine (closed.exec_ensureInitialized isKnown)

theorem step_staticSlot {index : UInt16} {symbol : FieldSymbol}
    (constant : pool.Constant index (.fieldref symbol)) :
    OfStep (fun found => known.Static found.1 found.2 symbol.type)
      (Step.staticSlot index symbol) := by
  refine closed.step_bind (closed.step_linked constant rfl fun _ _ => finds_static constant)
    fun link isKnown => ?_
  split
  · obtain ⟨ownerKnown, field⟩ := pool.static constant isKnown
    exact closed.step_bind (closed.step_ensureInitialized ownerKnown) fun _ _ =>
      closed.step_pure field
  · exact closed.step_fault _

theorem step_instanceSlot {index : UInt16} {symbol : FieldSymbol}
    (constant : pool.Constant index (.fieldref symbol)) :
    OfStep anything (Step.instanceSlot index symbol) := by
  refine closed.step_bind (closed.step_linked constant rfl fun _ _ => finds_instance constant)
    fun link _ => ?_
  split
  · exact closed.step_pure trivial
  · exact closed.step_fault _

theorem step_getStatic : OfStep anything Step.getStatic :=
  closed.step_bind closed.step_readShort fun index _ =>
    closed.step_bind (closed.step_fieldSymbolAt index) fun _ constant =>
      closed.step_bind (closed.step_staticSlot constant) fun _ _ =>
        closed.step_bind (closed.step_onMachine (closed.exec_getStatic _ _)) fun _ _ =>
          closed.step_onFrame _

theorem step_putStatic : OfStep anything Step.putStatic :=
  closed.step_bind closed.step_readShort fun index _ =>
    closed.step_bind (closed.step_fieldSymbolAt index) fun _ constant =>
      closed.step_bind (closed.step_staticSlot constant) fun _ field =>
        closed.step_bind (closed.step_onFrame _) fun _ _ =>
          closed.step_bind (closed.step_checkKind _ _ _) fun _ kind =>
            closed.step_onMachine (closed.exec_setStatic field (Value.holds_narrow kind))

theorem step_getField : OfStep anything Step.getField :=
  closed.step_bind closed.step_readShort fun index _ =>
    closed.step_bind (closed.step_fieldSymbolAt index) fun _ constant =>
      closed.step_bind (closed.step_instanceSlot constant) fun _ _ =>
        closed.step_bind closed.step_popObject fun _ _ =>
          closed.step_bind (closed.step_onMachine (closed.exec_getField _ _)) fun _ _ =>
            closed.step_onFrame _

theorem step_putField : OfStep anything Step.putField :=
  closed.step_bind closed.step_readShort fun index _ =>
    closed.step_bind (closed.step_fieldSymbolAt index) fun _ constant =>
      closed.step_bind (closed.step_instanceSlot constant) fun _ _ =>
        closed.step_bind (closed.step_onFrame _) fun _ _ =>
          closed.step_bind closed.step_popObject fun _ _ =>
            closed.step_bind (closed.step_checkKind _ _ _) fun _ _ =>
              closed.step_onMachine (closed.exec_putField _ _ _)

/-! ## Objects and arrays -/

theorem step_newObject : OfStep anything Step.newObject := by
  refine closed.step_bind closed.step_readShort fun index _ => ?_
  refine closed.step_bind (closed.step_classAt index) fun c isKnown => ?_
  refine closed.step_check (closed.step_fault _) fun _ => ?_
  exact closed.step_bind (closed.step_ensureInitialized isKnown) fun _ _ =>
    closed.step_bind (closed.step_onMachine (closed.exec_instantiate isKnown)) fun _ _ =>
      closed.step_onFrame _

theorem step_lengthOf (count : Int32) : OfStep anything (Step.lengthOf count) := by
  unfold Step.lengthOf
  split
  · exact closed.step_throwNew _ _
  · exact closed.step_pure trivial

theorem step_outOfMemory : OfStep gives (Step.outOfMemory : Step α) :=
  closed.step_throwNew _ _

theorem step_allocateArray {c : LinkedClass} (isKnown : known.Class c) (length : Nat) :
    OfStep anything (Step.allocateArray c length) := by
  have limited : OfStep anything (do
      let limit ← (do return (← read).limits.arrayLength)
      if length ≤ limit then Exec.allocateZeros c length else Step.outOfMemory) := by
    refine closed.step_bind closed.step_arrayLimit fun limit _ => ?_
    split
    · exact closed.step_onMachine (closed.exec_allocateZeros isKnown length)
    · exact closed.step_outOfMemory
  exact limited

theorem step_newArray : OfStep anything Step.newArray := by
  refine closed.step_bind closed.step_readByte fun code _ => ?_
  split
  · exact closed.step_fault _
  · exact closed.step_bind (closed.step_onFrame _) fun count _ =>
      closed.step_bind (closed.step_lengthOf count) fun length _ =>
        closed.step_bind (closed.step_onMachine (closed.exec_loadArray _)) fun _ loaded =>
          closed.step_bind (closed.step_allocateArray (known.ofNamed loaded) length) fun _ _ =>
            closed.step_onFrame _

theorem step_newReferenceArray : OfStep anything Step.newReferenceArray :=
  closed.step_bind closed.step_readShort fun index _ =>
    closed.step_bind (closed.step_classAt index) fun _ _ =>
      closed.step_bind (closed.step_onFrame _) fun count _ =>
        closed.step_bind (closed.step_lengthOf count) fun length _ =>
          closed.step_bind (closed.step_onMachine (closed.exec_loadArray _)) fun _ loaded =>
            closed.step_bind (closed.step_allocateArray (known.ofNamed loaded) length) fun _ _ =>
              closed.step_onFrame _

theorem step_lengthsOf (counts : List Value) : OfStep anything (Step.lengthsOf counts) := by
  induction counts with
  | nil => exact closed.step_pure trivial
  | cons first rest ih =>
    cases first with
    | int count =>
      exact closed.step_bind (closed.step_lengthOf count) fun _ _ =>
        closed.step_bind ih fun _ _ => closed.step_pure trivial
    | _ => exact closed.step_fault _

theorem step_newNestedArray
    (nesting : ∀ c, known.Class c → ∀ length inner,
      OfStep anything (Step.allocateNested c length inner)) :
    OfStep anything Step.newNestedArray := by
  refine closed.step_bind closed.step_readShort fun index _ => ?_
  refine closed.step_bind closed.step_readByte fun dimensions _ => ?_
  refine closed.step_bind (closed.step_classAt index) fun c isKnown => ?_
  refine closed.step_check (closed.step_fault _) fun _ => ?_
  refine closed.step_bind (closed.step_onFrame _) fun counts _ => ?_
  refine closed.step_bind (closed.step_lengthsOf counts) fun lengths _ => ?_
  cases lengths with
  | nil => exact closed.step_fault _
  | cons outer inner =>
    have made : OfStep anything (do
        let limit ← (do return (← read).limits.arrayLength)
        if !Step.fits limit 1 (outer :: inner) then
          Step.outOfMemory
        Step.pushObject (← Step.allocateNested c outer inner)) := by
      refine closed.step_bind closed.step_arrayLimit fun limit _ => ?_
      refine closed.step_check closed.step_outOfMemory fun _ => ?_
      exact closed.step_bind (nesting c isKnown outer inner) fun _ _ =>
        closed.step_onFrame _
    exact made

theorem step_arrayLength : OfStep anything Step.arrayLength := by
  refine closed.step_bind closed.step_popObject fun ref _ => ?_
  refine closed.step_bind (closed.step_object ref) fun object _ => ?_
  split
  · exact closed.step_onFrame _
  · exact closed.step_fail _

theorem step_componentOf (op : Opcode) (kind : ElementKind) (object : HeapObject) :
    OfStep (fun component => ∃ slots, object.array? = some (component, slots))
      (Step.componentOf op kind object) := by
  unfold Step.componentOf
  split
  · next component slots array =>
    split
    · exact closed.step_pure ⟨slots, array⟩
    · exact closed.step_fault _
  · exact closed.step_fault _

theorem step_indexOutOfBounds (object : HeapObject) (index : Int32) :
    OfStep gives (Step.indexOutOfBounds object index : Step α) :=
  closed.step_throwNew _ _

theorem step_loadElement (op : Opcode) (kind : ElementKind) :
    OfStep anything (Step.loadElement op kind) := by
  refine closed.step_bind (closed.step_onFrame _) fun index _ => ?_
  refine closed.step_bind closed.step_popObject fun ref _ => ?_
  refine closed.step_bind (closed.step_object ref) fun object _ => ?_
  refine closed.step_bind (closed.step_componentOf op kind object) fun _ _ => ?_
  split
  · exact closed.step_onFrame _
  · exact closed.step_indexOutOfBounds object index

theorem step_checkElement (array : HeapObject) (value : Value) :
    OfStep anything (Step.checkElement array value) := by
  unfold Step.checkElement
  split
  · refine closed.step_bind (closed.step_object _) fun element _ => ?_
    split
    · exact closed.step_throwNew _ _
    · exact closed.step_pure trivial
  · exact closed.step_pure trivial

theorem step_checkCast : OfStep anything Step.checkCast := by
  refine closed.step_bind closed.step_readShort fun index _ => ?_
  refine closed.step_bind (closed.step_classAt index) fun target _ => ?_
  refine closed.step_bind (closed.step_onFrame _) fun reference _ => ?_
  dsimp only
  split
  · refine closed.step_bind (closed.step_object _) fun object _ => ?_
    exact closed.step_check (closed.step_throwNew _ _) fun _ => closed.step_onFrame _
  · exact closed.step_onFrame _

theorem step_instanceOf : OfStep anything Step.instanceOf := by
  refine closed.step_bind closed.step_readShort fun index _ => ?_
  refine closed.step_bind (closed.step_classAt index) fun target _ => ?_
  refine closed.step_bind (closed.step_onFrame _) fun reference _ => ?_
  split
  · exact closed.step_bind (closed.step_object _) fun _ _ => closed.step_onFrame _
  · exact closed.step_onFrame _

/-! ## Calls -/

theorem step_methodSymbolAt (index : UInt16) :
    OfStep (fun symbol => pool.Constant index (.methodref symbol) ∨
      pool.Constant index (.interfaceMethodref symbol)) (Step.methodSymbolAt index) := by
  refine closed.step_bind (closed.step_constantAt index) fun constant isConstant => ?_
  split
  · exact closed.step_pure (.inl isConstant)
  · exact closed.step_pure (.inr isConstant)
  · exact closed.step_fault _

omit closed in
theorem finds_method {index : UInt16} {symbol : MethodSymbol}
    (constant : pool.Constant index (.methodref symbol) ∨
      pool.Constant index (.interfaceMethodref symbol)) {c : LinkedClass} {link : Linkage}
    (isKnown : known.Named symbol.owner c) (found : symbol.find c = .ok link) :
    pool.Link index link := by
  unfold MethodSymbol.find at found
  split at found
  · next selected =>
    cases found
    exact pool.linkMethod constant isKnown selected
  · cases found

theorem step_methodAt {index : UInt16} {symbol : MethodSymbol}
    (constant : pool.Constant index (.methodref symbol) ∨
      pool.Constant index (.interfaceMethodref symbol)) :
    OfStep (fun found => known.Method found.1 found.2.1) (Step.methodAt index symbol) := by
  have linked : OfStep (pool.Link index) (Step.linked index symbol.owner symbol.find) := by
    rcases id constant with isConstant | isConstant
    · exact closed.step_linked isConstant rfl fun _ _ => finds_method constant
    · exact closed.step_linked isConstant rfl fun _ _ => finds_method constant
  refine closed.step_bind linked fun link isKnown => ?_
  split
  · split
    · exact closed.step_pure (pool.method isKnown)
    · exact closed.step_fail _
  · exact closed.step_fail _

theorem step_invokeStatic : OfStep known.Next Step.invokeStatic := by
  refine closed.step_bind closed.step_readShort fun index _ => ?_
  refine closed.step_bind (closed.step_methodSymbolAt index) fun symbol constant => ?_
  refine closed.step_bind (closed.step_methodAt constant) fun found isKnown => ?_
  refine closed.step_check (closed.step_fault _) fun _ => ?_
  exact closed.step_bind (closed.step_ensureInitialized (known.owner isKnown)) fun _ _ =>
    closed.step_bind (closed.step_onFrame _) fun _ _ => closed.step_pure isKnown

theorem step_invokeSpecial : OfStep known.Next Step.invokeSpecial := by
  refine closed.step_bind closed.step_readShort fun index _ => ?_
  refine closed.step_bind (closed.step_methodSymbolAt index) fun symbol constant => ?_
  refine closed.step_bind (closed.step_methodAt constant) fun found isKnown => ?_
  refine closed.step_check (closed.step_fault _) fun _ => ?_
  refine closed.step_bind (closed.step_onFrame _) fun arguments _ => ?_
  split
  · exact closed.step_throwNew _ _
  · exact closed.step_pure isKnown

theorem step_receiver (arguments : List Value) : OfStep anything (Step.receiver arguments) := by
  unfold Step.receiver
  split
  · exact closed.step_pure trivial
  · exact closed.step_throwNew _ _
  · exact closed.step_fault _

theorem step_dispatch (op : Opcode) (index : UInt16) :
    OfStep known.Next (Step.dispatch op index) := by
  refine closed.step_bind (closed.step_methodSymbolAt index) fun symbol constant => ?_
  refine closed.step_bind (closed.step_methodAt constant) fun found isKnown => ?_
  refine closed.step_check (closed.step_fault _) fun _ => ?_
  refine closed.step_bind (closed.step_onFrame _) fun arguments _ => ?_
  refine closed.step_bind (closed.step_receiver arguments) fun ref _ => ?_
  split
  · exact closed.step_pure isKnown
  · refine closed.step_bind (closed.step_object ref) fun object isKnown => ?_
    dsimp only
    split
    · next selected =>
      exact closed.step_pure (known.found isKnown (pool.callable constant) selected)
    · exact closed.step_fail _

theorem step_invokeVirtual : OfStep known.Next Step.invokeVirtual :=
  closed.step_bind closed.step_readShort fun index _ => closed.step_dispatch _ index

theorem step_invokeInterface : OfStep known.Next Step.invokeInterface :=
  closed.step_bind closed.step_readShort fun index _ =>
    closed.step_bind closed.step_readShort fun _ _ => closed.step_dispatch _ index

theorem step_invokeDynamic : OfStep known.Next Step.invokeDynamic :=
  closed.step_bind closed.step_frame fun _ _ => closed.step_fail _

/-! ## The instruction set -/

theorem step_proceeding {action : Step Unit} (effect : OfStep anything action) :
    OfStep known.Next (Step.proceeding action) :=
  closed.step_bind effect fun _ _ => closed.step_pure trivial

/-- An instruction that reads an operand and works with it. -/
theorem step_withOperand {operand : Step α} {action : α → Step Unit}
    (reading : OfStep anything operand) (effect : ∀ a, OfStep anything (action a)) :
    OfStep known.Next (Step.proceeding do action (← operand)) :=
  closed.step_proceeding (closed.step_bind reading fun a _ => effect a)

section InstructionSet

variable (storing : ∀ op kind, OfStep anything (Step.storeElement op kind))
  (nesting : ∀ c, known.Class c → ∀ length inner,
    OfStep anything (Step.allocateNested c length inner))

include storing nesting

theorem step_execute (op : Opcode) : OfStep known.Next (Step.execute op) := by
  have constant (value : Value) : OfStep known.Next (Step.proceeding (Step.constant value)) :=
    closed.step_proceeding (closed.step_onFrame _)
  cases op with
  | nop => exact closed.step_proceeding (closed.step_pure trivial)
  | aconstNull | iconst | lconst | fconst | dconst => exact constant _
  | bipush =>
    exact closed.step_withOperand closed.step_readSignedByte fun _ => closed.step_onFrame _
  | sipush =>
    exact closed.step_withOperand closed.step_readSignedShort fun _ => closed.step_onFrame _
  | ldc => exact closed.step_withOperand closed.step_readByte fun _ => closed.step_loadConstant _
  | ldcWide => exact closed.step_withOperand closed.step_readShort closed.step_loadConstant
  | ldc2Wide => exact closed.step_withOperand closed.step_readShort closed.step_loadWideConstant
  | load => exact closed.step_withOperand closed.step_readByte fun _ => closed.step_load _ _ _
  | loadShort => exact closed.step_proceeding (closed.step_load _ _ _)
  | arrayLoad => exact closed.step_proceeding (closed.step_loadElement _ _)
  | store => exact closed.step_withOperand closed.step_readByte fun _ => closed.step_store _ _ _
  | storeShort => exact closed.step_proceeding (closed.step_store _ _ _)
  | arrayStore => exact closed.step_proceeding (storing _ _)
  | pop | pop2 =>
    exact closed.step_withOperand (closed.step_onFrame _) fun _ => closed.step_pure trivial
  | dup => exact closed.step_proceeding (closed.step_duplicate _ _)
  | swap => exact closed.step_proceeding closed.step_swap
  | arithmetic => exact closed.step_proceeding (closed.step_arithmetic _ _)
  | negate => exact closed.step_proceeding (closed.step_negate _)
  | shift => exact closed.step_proceeding (closed.step_shift _ _)
  | bitwise => exact closed.step_proceeding (closed.step_bitwise _ _)
  | iinc =>
    exact closed.step_withOperand closed.step_readByte fun _ =>
      closed.step_bind closed.step_readSignedByte fun _ _ => closed.step_increment _ _
  | convert => exact closed.step_proceeding (closed.step_convert _ _)
  | narrow => exact closed.step_proceeding (closed.step_unary _ _)
  | lcmp | fcmp | dcmp => exact closed.step_proceeding (closed.step_binary _ _ _)
  | ifInt | ifNull => exact closed.step_proceeding (closed.step_branchOn _ _)
  | ifInts | ifReferences => exact closed.step_proceeding (closed.step_branchOnTwo _ _ _)
  | goto => exact closed.step_proceeding (closed.step_branchIf _)
  | gotoWide => exact closed.step_withOperand closed.step_readInt closed.step_branch
  | jsr => exact closed.step_withOperand closed.step_readSignedShort closed.step_jump
  | jsrWide => exact closed.step_withOperand closed.step_readInt closed.step_jump
  | ret => exact closed.step_withOperand closed.step_readByte fun _ => closed.step_ret _
  | tableswitch => exact closed.step_proceeding closed.step_tableSwitch
  | lookupswitch => exact closed.step_proceeding closed.step_lookupSwitch
  | wide => exact closed.step_proceeding closed.step_wide
  | returnValue => exact closed.step_returnValue _
  | returnVoid => exact closed.step_pure trivial
  | getstatic => exact closed.step_proceeding closed.step_getStatic
  | putstatic => exact closed.step_proceeding closed.step_putStatic
  | getfield => exact closed.step_proceeding closed.step_getField
  | putfield => exact closed.step_proceeding closed.step_putField
  | invokevirtual => exact closed.step_invokeVirtual
  | invokespecial => exact closed.step_invokeSpecial
  | invokestatic => exact closed.step_invokeStatic
  | invokeinterface => exact closed.step_invokeInterface
  | invokedynamic => exact closed.step_invokeDynamic
  | new => exact closed.step_proceeding closed.step_newObject
  | newarray => exact closed.step_proceeding closed.step_newArray
  | anewarray => exact closed.step_proceeding closed.step_newReferenceArray
  | multianewarray => exact closed.step_proceeding (closed.step_newNestedArray nesting)
  | arraylength => exact closed.step_proceeding closed.step_arrayLength
  | athrow => exact closed.step_bind closed.step_popObject fun _ _ => closed.step_throw _
  | checkcast => exact closed.step_proceeding closed.step_checkCast
  | instanceof => exact closed.step_proceeding closed.step_instanceOf
  | monitorenter | monitorexit =>
    exact closed.step_withOperand closed.step_popObject fun _ => closed.step_pure trivial

/-- **Every instruction is put together from the simplest actions.** -/
theorem step_instruction : OfStep known.Next Step.instruction := by
  refine closed.step_bind closed.step_readByte fun byte _ => ?_
  split
  · exact closed.step_execute storing nesting _
  · exact closed.step_fault _

end InstructionSet

end JavaMachine.Informed
