import Dcpu.Proofs.Codegen.Composition
import Dcpu.Proofs.Codegen.Loadable
import Dcpu.Proofs.Machine.Failures

/-! # Where compiled programs fail

A loaded program fails only over the operands that stand for the stack. A compiled one has such an operand only
in its returns, so all that can go wrong is a return without a call before it.
-/

namespace Dcpu

open Source Gen

/-- The lines of a compiled program leave the stack alone, except for the returns of its routines. -/
theorem leavesStack_of_compile {settings : Settings} {source : String} {listing : Listing}
    (compiled : (compile settings source).result = .ok listing) :
    ∃ program, (readSource source).1 = .ok program ∧
      ∀ line ∈ listing, line.leavesStack = true ∨ returnsIn program = true ∧ line = .ret := by
  obtain ⟨program, read, compiled⟩ := compile_eq_ok compiled
  obtain ⟨after, ran, rfl, -⟩ := compileProgram_eq_ok compiled
  have composed : Composed (fun line => line.leavesStack = true ∨ returnsIn program = true ∧ line = .ret)
      (programCode settings.haltLoop program) :=
    programCode_composed (fun _ => .inl) _ program fun returns => .inr ⟨returns, rfl⟩
  obtain ⟨code, emitted, areAllowed⟩ := composed.emits (.start (.new settings))
  rw [after_of_ok ran] at emitted
  have whole : after.listing = code := emitted
  exact ⟨program, read, whole ▸ areAllowed⟩

namespace Image

variable {listing : Listing} {image : Image} {pc : Nat} {body : Instruction} {error : MachineError}

/-- The instructions of a loaded program are lines of its listing. -/
theorem mem_of_load (loaded : load listing = .ok image) (member : body ∈ image.instructions) :
    .instruction body ∈ listing := by
  obtain ⟨line, isLine, same⟩ := List.mem_filterMap.mp ((mem_instructions_of_load loaded).mp member)
  cases line with
  | label name => cases same
  | instruction other =>
    cases same
    exact isLine

/-- An instruction without an operand for the stack does not fail. -/
theorem not_fault_of_leavesStack (loaded : load listing = .ok image)
    (fetched : image.instructions[pc]? = some body) (plain : (Line.instruction body).leavesStack = true) :
    ¬ image.Fault pc body error := by
  intro fault
  have absent {operand : Operand} (isStack : operand.isStack = true) : operand ∉ body.operands := by
    intro member
    simp only [Line.leavesStack, Bool.not_eq_true', List.any_eq_false] at plain
    exact plain operand member isStack
  obtain ⟨-, pops⟩ | ⟨-, pushes⟩ | ⟨-, op, a, rfl⟩ := fault.cases_of_load loaded fetched
  · exact absent rfl pops
  · exact absent rfl pushes
  · exact absent rfl (List.mem_cons_self : Operand.pop ∈ [Operand.pop, a])

/-- A return fails for want of a return address only. -/
theorem Fault.eq_underflow_of_ret (loaded : load listing = .ok image)
    (fetched : image.instructions[pc]? = some (.basic .set (.register .pc) .pop))
    (fault : image.Fault pc (.basic .set (.register .pc) .pop) error) : error = .underflow pc := by
  obtain ⟨same, -⟩ | ⟨-, pushes⟩ | ⟨-, op, a, impossible⟩ := fault.cases_of_load loaded fetched
  · exact same
  · simp [Instruction.operands] at pushes
  · cases impossible

end Image

/-- In a loaded program, whatever the machine is like, a step succeeds, or it fails for want of a word on the
stack or over an operand that cannot be read or written. A failed step has counted its instruction and gone
behind it, and has changed nothing else but the stack. In a loaded program that was compiled only a return
fails, for want of a return address, and no step fails if nothing in the source text is a routine or a
return. -/
theorem compiled_source_fails_at_returns_only {listing : Listing} {image : Image}
    (loaded : Image.load listing = .ok image) :
    (∀ machine error after, image.step machine = .error error after →
      (error = .underflow machine.pc ∨ error = .pushRead ∨ error = .popWritten) ∧
        after = { machine with
          sp := after.sp, depth := after.depth, pc := machine.pc + 1, steps := machine.steps + 1 }) ∧
    ∀ settings source, (compile settings source).result = .ok listing →
      (∀ machine error after, image.step machine = .error error after →
        error = .underflow machine.pc ∧
          image.instructions[machine.pc]? = some (.basic .set (.register .pc) .pop)) ∧
      ∃ program, (readSource source).1 = .ok program ∧
        (returnsIn program = false → ∀ machine, ∃ after, image.step machine = .ok () after) := by
  refine ⟨fun machine error after failed => ?_, fun settings source compiled => ?_⟩
  · obtain ⟨same, instruction, fetched, fault⟩ := Image.step_eq_error failed
    refine ⟨?_, same⟩
    exact (fault.cases_of_load loaded fetched).imp And.left (Or.imp And.left And.left)
  · obtain ⟨program, read, lines⟩ := leavesStack_of_compile compiled
    have returns {machine : Machine} {error : MachineError} {after : Machine}
        (failed : image.step machine = .error error after) : returnsIn program = true ∧
          error = .underflow machine.pc ∧
            image.instructions[machine.pc]? = some (.basic .set (.register .pc) .pop) := by
      obtain ⟨-, body, fetched, fault⟩ := Image.step_eq_error failed
      have member := Image.mem_of_load loaded (Array.mem_of_getElem? fetched)
      obtain plain | ⟨hasReturns, isReturn⟩ := lines _ member
      · exact absurd fault (Image.not_fault_of_leavesStack loaded fetched plain)
      · cases isReturn
        exact ⟨hasReturns, fault.eq_underflow_of_ret loaded fetched, fetched⟩
    refine ⟨fun machine error after failed => (returns failed).2, program, read, fun none machine => ?_⟩
    cases stepped : image.step machine with
    | ok _ after => exact ⟨after, rfl⟩
    | error error after =>
      rw [(returns stepped).1] at none
      cases none

/-- A return outside of all routines fails at once, and a loop that fills the screen never does. -/
theorem stray_return_fails_and_loop_does_not :
    (∃ listing image, (compile {} "return;").result = .ok listing ∧ Image.load listing = .ok image ∧
      (∃ after, image.step .start = .error (.underflow 0) after) ∧
      image.instructions[Machine.start.pc]? = some (.basic .set (.register .pc) .pop)) ∧
    ∃ listing image, (compile {} "while (1) \x7b screen[x] = x; x = x + 1; \x7d").result = .ok listing ∧
      Image.load listing = .ok image ∧ ∀ machine, ∃ after, image.step machine = .ok () after := by
  have loads {source : String} (accepted : ((compile {} source).result.toOption.bind fun listing =>
      (Image.load listing).toOption).isSome = true) : ∃ listing image,
        (compile {} source).result = .ok listing ∧ Image.load listing = .ok image := by
    cases compiled : (compile {} source).result with
    | error error => simp [compiled, Except.toOption] at accepted
    | ok listing =>
      cases loaded : Image.load listing with
      | error error => simp [compiled, loaded, Except.toOption] at accepted
      | ok image => exact ⟨listing, image, rfl, loaded⟩
  constructor
  · obtain ⟨listing, image, compiled, loaded⟩ := @loads "return;" (by decide +kernel)
    have fails : ((compile {} "return;").result.toOption.bind fun listing =>
        (Image.load listing).toOption.bind fun image => image.step.run' .start) = none := by decide +kernel
    simp only [compiled, loaded, Except.toOption, Option.bind_some] at fails
    obtain ⟨error, after, stepped⟩ := Effects.run'_eq_none_iff.mp fails
    obtain ⟨rfl, fetched⟩ := ((compiled_source_fails_at_returns_only loaded).2 {} _ compiled).1 _ _ _ stepped
    exact ⟨listing, image, compiled, loaded, ⟨after, stepped⟩, fetched⟩
  · obtain ⟨listing, image, compiled, loaded⟩ :=
      @loads "while (1) \x7b screen[x] = x; x = x + 1; \x7d" (by decide +kernel)
    obtain ⟨-, program, read, steady⟩ := (compiled_source_fails_at_returns_only loaded).2 {} _ compiled
    refine ⟨listing, image, compiled, loaded, steady ?_⟩
    have none : (readSource "while (1) \x7b screen[x] = x; x = x + 1; \x7d").1.toOption.map returnsIn =
      some false := by decide +kernel
    simpa [read, Except.toOption] using none

end Dcpu
