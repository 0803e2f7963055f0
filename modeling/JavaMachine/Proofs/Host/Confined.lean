import JavaMachine.Proofs.ClassFile.RoundTrip
import JavaMachine.Proofs.Host.Storage
import JavaMachine.Proofs.Instruction.Range

/-! # Code that is confined

Code runs without having been verified: it may be cut off anywhere, find slots of any kind and branch
to wherever it likes. However that may be, every frame stays within the bounds that its method gives,
links lead to methods and static fields that exist, and so do calls. What an instruction computes to
find its way in the code fits into 64 bits, since the file of a class gives the size of a method body
in 32 (`Session.Reached.confined`). -/

namespace JavaMachine

open Execution (advance)
open Loader (Defines)

/-! ## The size of code -/

/-- As many bytes as a method body may have. -/
def Code.Sized (code : Code) : Prop :=
  code.bytes.size < 2 ^ 32

namespace Link

theorem sized_of_code {pool : Array Constant} {name : String} {body : CodeBody Attribute} {found : Code}
    (linked : Link.code pool name body = .ok found) (size : body.code.length < 2 ^ 32) :
    found.Sized := by
  simp only [Link.code, Except.bind_eq_ok_iff, Except.pure_eq_ok_iff] at linked
  obtain ⟨handlers, -, rfl⟩ := linked
  exact size

/-- The body of a method is one of those among its attributes. -/
theorem sized_of_codeAmong {pool : Array Constant} {name : String} {items : List Attribute}
    (sized : ∀ index body, .code index body ∈ items → body.code.length < 2 ^ 32)
    {known result : Option Code} (before : ∀ code ∈ known, code.Sized)
    (ended : codeAmong pool name items known = .ok result) : ∀ code ∈ result, code.Sized := by
  induction items generalizing known with
  | nil =>
    cases ended
    exact before
  | cons first rest ih =>
    have others := fun index body member => sized index body (List.mem_cons_of_mem first member)
    cases first with
    | code index body =>
      obtain ⟨found, linked, ended⟩ := Except.bind_eq_ok_iff.mp ended
      refine ih others (fun code same => ?_) ended
      cases same
      exact sized_of_code linked (sized index body List.mem_cons_self)
    | raw index info =>
      obtain ⟨_, -, ended⟩ := Except.bind_eq_ok_iff.mp ended
      exact ih others before ended

theorem sized_of_method {pool : Array Constant} {entry : MemberEntry} {found : Method}
    (linked : Link.method pool entry = .ok found)
    (sized : ∀ index body, .code index body ∈ entry.attributes → body.code.length < 2 ^ 32) :
    ∀ code ∈ found.code, code.Sized := by
  simp only [Link.method, Except.bind_eq_ok_iff] at linked
  obtain ⟨name, -, descriptorText, -, linked⟩ := linked
  split at linked
  · cases linked
  · obtain ⟨code, among, linked⟩ := Except.bind_eq_ok_iff.mp linked
    split at linked
    · cases linked
    split at linked
    · cases linked
    rw [Except.pure_eq_ok_iff] at linked
    subst linked
    exact sized_of_codeAmong sized (fun _ none => by cases none) among

end Link

/-- The body of a method in a well-formed file has as many bytes as can be counted. -/
theorem MemberEntry.Laid.sized {pool : Array PoolEntry} {entry : MemberEntry}
    (laid : entry.Laid pool (·.OfMethod pool)) (index : UInt16) (body : CodeBody Attribute)
    (member : .code index body ∈ entry.attributes) : body.code.length < 2 ^ 32 :=
  Nat.lt_of_le_of_lt body.length_code_le (laid.attributes _ member).2.size

theorem Loader.Defines.sized {sources : List ClassSource} {c : LinkedClass}
    (defined : Defines sources c) {index : Nat} {method : Method} {code : Code}
    (present : c.method? index = some method) (coded : method.code = some code) : code.Sized := by
  cases defined with
  | file described _ _ _ _ _ _ linked =>
    obtain ⟨bytes, -, read⟩ := described.found
    have wellFormed := (ClassFile.wellFormed_and_write_of_read read).1
    simp only [Link.link, Except.bind_eq_ok_iff, Except.pure_eq_ok_iff] at linked
    obtain ⟨fields, -, methods, linkedMethods, meanings, -, rfl⟩ := linked
    have member : method ∈ methods := List.mem_toArray.mp (Array.mem_of_getElem? present)
    obtain ⟨entry, listed, linked⟩ := Except.exists_of_mem_mapM linkedMethods member
    exact Link.sized_of_method linked (wellFormed.methods entry listed).sized code coded
  | array => cases present

/-! ## Confined frames and links -/

/-- What an instruction computes to find its way in the code fits into a signed number of 64 bits: the
place behind the byte that is read, the target of a branch, the operands of a switch, and the entry
of its table for a key. -/
structure Frame.Addressable (frame : Frame) : Prop where
  next (cursor : Nat) (within : cursor < frame.code.bytes.size) : cursor + 1 < 2 ^ 63
  target (offset : Int32) :
    -2 ^ 63 ≤ (frame.pc : Int) + offset.toInt ∧ (frame.pc : Int) + offset.toInt < 2 ^ 63
  operands : frame.pc + 4 < 2 ^ 63
  entry (cursor : Nat) (read : cursor ≤ frame.code.bytes.size) (key low : Int32) :
    cursor + 4 * (key.toInt - low.toInt).toNat < 2 ^ 63

theorem Code.Sized.addressable {frame : Frame} (sized : frame.code.Sized)
    (fetched : frame.pc < frame.code.bytes.size) : frame.Addressable := by
  unfold Code.Sized at sized
  refine ⟨fun cursor within => by omega, fun offset => ?_, by omega, fun cursor read key low => ?_⟩
  · have least := offset.le_toInt
    have most := offset.toInt_lt
    omega
  · have most := key.toInt_lt
    have least := low.le_toInt
    omega

/-- A link that leads to a static field or a method that exists. The slot of an instance field is
looked for in the object at hand whenever the link is used. -/
def Linkage.InRange (machine : Machine) : Linkage → Prop
  | .named _ => True
  | .staticField owner slot => slot < (Exec.stateIn owner machine).statics.size
  | .instanceField _ => True
  | .method owner index => index < owner.methods.size

/-- All frames in progress are those of methods, within the bounds of their code, and all links lead
to something that exists. -/
structure Machine.Confines (sources : List ClassSource) (live : List Activation) (machine : Machine) :
    Prop where
  depth : machine.depth = live.length
  frames (frame : Frame) (member : .code frame ∈ live) : frame.Bounded
  methods (frame : Frame) (member : .code frame ∈ live) :
    Defines sources frame.owner ∧ ∃ index < frame.owner.methods.size,
      frame.owner.method? index = some frame.method ∧ frame.method.code = some frame.code
  links (c : LinkedClass) (defined : Defines sources c) (index : UInt16) (link : Linkage)
    (linked : (index, link) ∈ (Exec.stateIn c machine).links) : link.InRange machine

/-- What a chain of frames does when an instruction is executed: it stays confined, makes calls of
methods that exist only, and computes nothing that is too large. -/
structure Chain.StepsConfined (setup : Setup) (fuel : Nat) (chain : Chain) (live : List Activation)
    (machine : Machine) : Prop where
  before : machine.Confines setup.sources (chain.live ++ live)
  /-- However the instruction ends, the frame is at its place and within its bounds. -/
  during :
    let ended := endState (Step.instruction (setup.services fuel)
      ⟨machine, chain.frame, chain.frame.pc⟩)
    chain.frame.SamePlace ended.frame ∧ ended.frame.Bounded
  after (next : Chain) (after : Machine)
    (ended : advance chain (setup.services fuel) machine = .ok (.running next) after) :
    after.Confines setup.sources (next.live ++ live)
  calls (owner : LinkedClass) (index : Nat) (arguments : List Value) (after : StepState)
    (ended : Step.instruction (setup.services fuel) ⟨machine, chain.frame, chain.frame.pc⟩ =
      .ok (.call owner index arguments) after) :
    Defines setup.sources owner ∧ index < owner.methods.size
  addressable (fetched : chain.frame.pc < chain.frame.code.bytes.size) : chain.frame.Addressable

section Regular

variable {setup : Setup} {start : Heap} {live : List Activation} {machine : Machine}

theorem Resolves.inRange {sources : List ClassSource} {c : LinkedClass} {index : UInt16}
    {link : Linkage} (resolves : Resolves sources c index link) (sound : machine.Sound sources) :
    link.InRange machine := by
  cases resolves with
  | named => trivial
  | staticField _ defined _ found _ =>
    obtain ⟨ownerDefined, member⟩ := defined.declared_of_staticField? found
    obtain ⟨position, present⟩ := List.getElem?_of_mem member
    change _ < (Exec.stateIn _ machine).statics.size
    rw [ownerDefined.slot_staticField present, (sound.classes _ ownerDefined).size]
    exact (List.getElem?_eq_some_iff.mp present).1
  | instanceField => trivial
  | method _ defined _ selected => exact (Provided.method (.inl defined) selected).2

/-- Where the regime of sound machines is kept, frames and links are confined. -/
theorem Regime.Regular.confines
    (regular : (Regime.sound setup start).Regular setup live machine) :
    machine.Confines setup.sources live where
  depth := regular.depth
  frames frame member := (regular.hosts frame member).bounded
  methods frame member := by
    obtain ⟨index, ⟨defined, within⟩, present, coded⟩ := (regular.hosts frame member).method
    exact ⟨defined, index, within, present, coded⟩
  links c defined index link linked :=
    ((regular.good.1.classes c defined).links index link linked).inRange regular.good.1

theorem Regime.Regular.innermost {chain : Chain}
    (regular : (Regime.sound setup start).Regular setup (chain.live ++ live) machine) :
    (Regime.sound setup start).Hosts chain.frame :=
  regular.hosts _ (List.mem_append_left _ List.mem_cons_self)

theorem Regime.Regular.stepsConfined {fuel : Nat} {chain : Chain}
    (governs : (Regime.sound setup start).Governs setup)
    (regular : (Regime.sound setup start).Regular setup (chain.live ++ live) machine) :
    chain.StepsConfined setup fuel live machine where
  before := regular.confines
  during := by
    have keeps := Step.keeps_instruction (setup.services fuel)
      ⟨machine, chain.frame, chain.frame.pc⟩
    exact ⟨keeps.place, keeps.bounded regular.innermost.bounded⟩
  after next after ended := by
    have advances := governs.advances fuel regular
    rw [ended] at advances
    cases advances with
    | running regular => exact regular.confines
  calls owner index arguments after ended := by
    have trusts : (Regime.sound setup start).Trusts setup fun _ _ => false :=
      fun _ _ stops => by cases stops
    have twins := governs.twins trusts fuel regular
    have leads := governs.instruction _ _ _ twins ⟨machine, chain.frame, chain.frame.pc⟩
      regular.good regular.depth regular.innermost
    rw [Setup.withInvoker_services] at leads
    exact leads.2.2 _ after ended
  addressable fetched := by
    obtain ⟨_, ⟨defined, -⟩, present, coded⟩ := regular.innermost.method
    exact (defined.sized present coded).addressable fetched

end Regular

/-! ## Sessions -/

/-- Whatever a session performs and whatever code does, frames, links and calls are confined: at every
moment, and whenever an instruction is executed at a regular moment. -/
structure Session.Confined (session : Session) : Prop where
  always : session.Always fun live machine => machine.Confines session.setup.sources live
  steps (fuel : Nat) (chain : Chain) (live : List Activation) (machine : Machine)
    (regular : (Regime.sound session.setup session.machine.heap).Regular session.setup
      (chain.live ++ live) machine) : chain.StepsConfined session.setup fuel live machine
  accesses : Step.ChecksAccesses

namespace Session.Reached

variable {options : Options} {session : Session}

/-- **Code is confined in every session**, though it was never verified. -/
theorem confined (hosted : Hosted options) (reached : Reached options session) :
    session.Confined where
  always := (reached.always hosted).weaken fun _ _ => Regime.Regular.confines
  steps _ _ _ _ := Regime.Regular.stepsConfined (reached.governs hosted session.machine.heap)
  accesses := Step.checksAccesses

theorem confined_gauges :
    Hosted gaugeOptions ∧ Reached gaugeOptions (gauges.perform takeReadings).2 ∧
      (gauges.perform takeReadings).2.Confined :=
  ⟨hosted_gauges, reached_gauges, confined hosted_gauges reached_gauges⟩

end Session.Reached

end JavaMachine
