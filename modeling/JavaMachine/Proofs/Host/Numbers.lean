import JavaMachine.Proofs.Class.Numbers
import JavaMachine.Proofs.Host.Reached

/-! # Numbers of loaded classes

The classes of a session that come from scripts have the numbers of their scripts
(`Session.Reached.keepsNumbers`). A scale that is declared with a zero and pushes a negative zero shows
where a number is not the one that was given (`belowZero_lost`). -/

namespace JavaMachine

/-- **Loaded classes have the numbers of their scripts**: the static fields start with them when the
class is initialized, and the methods push them. -/
theorem Session.Reached.keepsNumbers {options : Options} {session : Session} {script : ClassScript}
    {file : ClassFile} {name : String} {c : LinkedClass} (hosted : Hosted options)
    (reached : Reached options session) (assembled : script.assemble = .ok file)
    (version : 45 ≤ file.majorVersion.toNat ∧ file.majorVersion.toNat ≤ 69)
    (representable : file.Representable)
    (supplied : findClass name session.setup.sources = .ok file.write)
    (plain : name.startsWith "[" = false)
    (loaded : session.machine.loaded.lookup name = some c) : script.KeepsNumbers c := by
  obtain ⟨named, defined, -⟩ := (reached.sound hosted).1.loaded _ _ loaded
  subst named
  exact script.keepsNumbers_of_defines assembled version representable defined plain supplied

/-! ## Scales and their zeros -/

/-- A scale has a zero, and a method that pushes a zero of the other sign. -/
def scaleScript : ClassScript where
  name := "Scale"
  superclass := some ClassName.object
  items := [
    .constantField Builtin.publicStatic "zero" "F" (.float 0),
    .method Builtin.publicStatic "below" "()F" 0 [
      .fconst 0x80000000,
      .plain (Opcode.returnValue .float).byte]]

/-- A session in which nothing has been done with scales yet. -/
@[irreducible] def scales : Session :=
  Session.opened (Options.ofScripts [scaleScript] 8)

/-- Has a scale go below zero. -/
def goBelow : Exec HostValue := do
  (← Target.named "Scale" none).call "below" []

/-- The `float` that an action has ended with, as bits. -/
def floatOf? : Except Error HostValue → Option UInt32
  | .ok (.float bits) => some bits
  | _ => none

/-- Whether a file can be written and is what the sources have under a name. -/
def suppliedAs (name : String) (sources : List ClassSource) (file : ClassFile) : Bool :=
  file.majorVersion == 52 && decide file.Representable &&
    (findClass name sources).toOption == some file.write

theorem scales_facts :
    (Session.start (Options.ofScripts [scaleScript] 8)).isOk = true ∧
      scaleScript.assemble.toOption.map
        (suppliedAs "Scale" (scales.perform goBelow).2.setup.sources) = some true ∧
      ((scales.perform goBelow).2.machine.loaded.lookup "Scale").isSome = true ∧
      floatOf? (scales.perform goBelow).1 = some 0 := by
  decide +kernel

theorem reached_scales :
    Session.Reached (Options.ofScripts [scaleScript] 8) (scales.perform goBelow).2 := by
  unfold scales
  exact .performed (.started (Session.start_opened scales_facts.1)) (.call "Scale" none "below" [])

theorem Session.Reached.keepsNumbers_scale : ∃ file c,
    Hosted (Options.ofScripts [scaleScript] 8) ∧
      Reached (Options.ofScripts [scaleScript] 8) (scales.perform goBelow).2 ∧
      scaleScript.assemble = .ok file ∧
      (45 ≤ file.majorVersion.toNat ∧ file.majorVersion.toNat ≤ 69) ∧ file.Representable ∧
      findClass "Scale" (scales.perform goBelow).2.setup.sources = .ok file.write ∧
      "Scale".startsWith "[" = false ∧
      (scales.perform goBelow).2.machine.loaded.lookup "Scale" = some c ∧
      scaleScript.KeepsNumbers c := by
  obtain ⟨-, supplied, loaded, -⟩ := scales_facts
  obtain ⟨c, found⟩ := Option.isSome_iff_exists.mp loaded
  obtain ⟨file, made, fits⟩ := Option.map_eq_some_iff.mp supplied
  have assembled : scaleScript.assemble = .ok file := by
    cases assembles : scaleScript.assemble with
    | error fault =>
      rw [assembles] at made
      cases made
    | ok other =>
      rw [assembles] at made
      rw [Option.some.inj made]
  simp only [suppliedAs, Bool.and_eq_true, beq_iff_eq, decide_eq_true_eq] at fits
  obtain ⟨⟨version, representable⟩, held⟩ := fits
  have version : 45 ≤ file.majorVersion.toNat ∧ file.majorVersion.toNat ≤ 69 := by
    rw [version]
    decide
  have source : findClass "Scale" (scales.perform goBelow).2.setup.sources = .ok file.write := by
    cases search : findClass "Scale" (scales.perform goBelow).2.setup.sources with
    | error error =>
      rw [search] at held
      cases held
    | ok bytes =>
      rw [search] at held
      rw [Option.some.inj held]
  exact ⟨file, c, hosted_ofScripts, reached_scales, assembled, version, representable, source,
    by decide +kernel, found, keepsNumbers hosted_ofScripts reached_scales assembled version
      representable source (by decide +kernel) found⟩

/-- **A zero may lose its sign**: the body of the method names the negative zero, but since the field
asks for the other one first, it is that which the method returns. -/
theorem belowZero_lost :
    Session.Reached (Options.ofScripts [scaleScript] 8) (scales.perform goBelow).2 ∧
      scaleScript.methods = [some [.fconst 0x80000000, .plain (Opcode.returnValue .float).byte]] ∧
      (scales.perform goBelow).1 = .ok (.float 0) := by
  refine ⟨reached_scales, rfl, ?_⟩
  have ended := scales_facts.2.2.2
  cases result : (scales.perform goBelow).1 with
  | error error =>
    rw [result] at ended
    cases ended
  | ok value =>
    rw [result] at ended
    cases value with
    | float bits => rw [Option.some.inj ended]
    | _ => cases ended

end JavaMachine
