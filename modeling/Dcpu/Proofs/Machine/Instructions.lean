import Dcpu.Proofs.Machine.Running

/-! # What single instructions do

The instructions of code without calls, each as a step between two points.
-/

namespace Dcpu

open Effects

namespace Point

/-- The word that an operand reads at a point, for operands that leave the stack and the other
registers alone. -/
def read? (point : Point) : Operand → Option Word
  | .register .a => some point.a
  | .indirect .a => some (point.memory.read point.a)
  | .memory address => some (point.memory.read address)
  | .address word => some word
  | .literal word => some word
  | _ => none

def write? (point : Point) (word : Word) : Operand → Option Point
  | .register .a => some { point with a := word }
  | .indirect .a => some { point with memory := point.memory.write point.a word }
  | .memory address => some { point with memory := point.memory.write address word }
  | _ => none

def goto (point : Point) (pc : Nat) : Point :=
  { point with pc }

@[simp] theorem pc_goto (point : Point) (pc : Nat) : (point.goto pc).pc = pc := rfl

@[simp] theorem memory_goto (point : Point) (pc : Nat) : (point.goto pc).memory = point.memory := rfl

@[simp] theorem a_goto (point : Point) (pc : Nat) : (point.goto pc).a = point.a := rfl

@[simp] theorem read?_goto (point : Point) (pc : Nat) (operand : Operand) :
    (point.goto pc).read? operand = point.read? operand := by
  unfold read?
  split <;> rfl

end Point

/-- Only the next instruction changes. -/
theorem Machine.moved_goto {machine : Machine} {source : Point} {pc : Nat}
    (stands : machine.point = source.goto pc) (target : Nat) :
    machine.moved (source.goto target) 0 = { machine with pc := target } := by
  have same : source.goto target = machine.point.goto target := by
    rw [stands]
    rfl
  rw [same]
  simp [moved, Machine.point, Point.goto, setRegister, register_a]

namespace Image

section Parts

variable {machine : Machine} {operand : Operand} {word : Word}

private theorem value_eq (image : Image) (reads : machine.point.read? operand = some word) :
    Exec.value image operand machine = .ok word machine := by
  unfold Point.read? at reads
  split at reads <;> simp_all [Exec.value, bind_apply, Machine.point]

private theorem assign_eq (current : Nat) {target : Point}
    (writes : machine.point.write? word operand = some target) :
    Exec.assign current operand word machine = .ok () (machine.moved target 0) := by
  unfold Point.write? at writes
  split at writes <;> cases writes <;>
    simp [Exec.assign, Register.index?, Machine.moved, Machine.setRegister, Machine.write, Machine.point,
      Machine.register_a]

private theorem step_eq (image : Image) {instruction : Instruction} (running : machine.halted = false)
    (fetched : image.instructions[machine.point.pc]? = some instruction) :
    image.step machine = image.execute machine.point.pc instruction
      (machine.moved (machine.point.goto (machine.point.pc + 1)) 1) := by
  have advanced : { machine with steps := machine.steps + 1, pc := machine.pc + 1 } =
      machine.moved (machine.point.goto (machine.point.pc + 1)) 1 := by
    simp [Machine.moved, Machine.point, Point.goto, Machine.setRegister, Machine.register_a]
  have here : image.instructions[machine.pc]? = some instruction := fetched
  rw [← advanced]
  simp [step, bind_apply, running, here, Machine.point]

end Parts

variable {image : Image} {source target : Point} {word : Word} {b a : Operand}

/-- An instruction that is carried out between two points takes one step. -/
private theorem reaches_of_execute {instruction : Instruction}
    (fetched : image.instructions[source.pc]? = some instruction)
    (executes : ∀ machine : Machine, machine.halted = false →
      machine.point = source.goto (source.pc + 1) →
      image.execute source.pc instruction machine = .ok () (machine.moved target 0)) :
    image.Reaches 1 source target := by
  rintro machine running rfl
  have step := image.step_eq running fetched
  rw [executes _ (by simpa using running) (by simp), Machine.moved_moved] at step
  exact .next running step (.done _)

private theorem value_at {machine : Machine} {pc : Nat} {operand : Operand}
    (reads : source.read? operand = some word) (stands : machine.point = source.goto pc) :
    Exec.value image operand machine = .ok word machine := by
  apply value_eq
  rw [stands, Point.read?_goto, reads]

/-- A copy of a word. -/
theorem reaches_set (fetched : image.instructions[source.pc]? = some (.basic .set b a))
    (reads : source.read? a = some word)
    (writes : (source.goto (source.pc + 1)).write? word b = some target) :
    image.Reaches 1 source target := by
  refine reaches_of_execute fetched ?_
  intro machine _ stands
  simp only [execute, bind_apply, value_at reads stands]
  exact assign_eq _ (stands ▸ writes)

theorem execute_of_ne_set (current : Nat) {op : Opcode} (notCopy : op ≠ .set) :
    image.execute current (.basic op b a) = (do
      let source ← Exec.value image a
      let destination ← Exec.value image b
      if op.isConditional then
        unless op.passes destination source do image.skip
      else Exec.assign current b (op.compute destination source)) := by
  cases op with
  | set => exact absurd rfl notCopy
  | _ => rfl

/-- An instruction that computes. -/
theorem reaches_compute {op : Opcode} {other : Word}
    (fetched : image.instructions[source.pc]? = some (.basic op b a))
    (computes : op.isConditional = false) (notCopy : op ≠ .set)
    (readsSource : source.read? a = some word) (readsDestination : source.read? b = some other)
    (writes : (source.goto (source.pc + 1)).write? (op.compute other word) b = some target) :
    image.Reaches 1 source target := by
  refine reaches_of_execute fetched ?_
  intro machine _ stands
  rw [execute_of_ne_set _ notCopy]
  simp only [bind_apply, value_at readsSource stands, value_at readsDestination stands, computes,
    Bool.false_eq_true, ↓reduceIte]
  exact assign_eq _ (stands ▸ writes)

/-- Behind the end there is nothing to skip. -/
theorem skipFrom_of_none {pc : Nat} (missing : image.instructions[pc]? = none) (bound : Nat) :
    image.skipFrom bound pc = pc := by
  cases bound with
  | zero => rfl
  | succ bound => simp [skipFrom, missing]

/-- An instruction that is no test is skipped alone. -/
theorem skipFrom_of_single {pc : Nat} {next : Instruction} (skipped : image.instructions[pc]? = some next)
    (single : next.isConditional = false) : image.skipFrom (image.instructions.size - pc) pc = pc + 1 := by
  have inside := (Array.getElem?_eq_some_iff.mp skipped).1
  obtain ⟨bound, enough⟩ : ∃ bound, image.instructions.size - pc = bound + 1 :=
    ⟨image.instructions.size - pc - 1, by omega⟩
  simp [enough, skipFrom, skipped, single]

section Tests

variable {op : Opcode} {other : Word} (fetched : image.instructions[source.pc]? = some (.basic op b a))
  (tests : op.isConditional = true) (readsSource : source.read? a = some word)
  (readsDestination : source.read? b = some other)

include fetched tests readsSource readsDestination

/-- A test that passes goes on with the next instruction. -/
theorem reaches_of_passes (passes : op.passes other word = true) :
    image.Reaches 1 source (source.goto (source.pc + 1)) := by
  have notCopy : op ≠ .set := by
    rintro rfl
    cases tests
  refine reaches_of_execute fetched ?_
  intro machine _ stands
  rw [execute_of_ne_set _ notCopy, ← stands, machine.moved_self]
  simp only [bind_apply, value_at readsSource stands, value_at readsDestination stands, tests,
    ↓reduceIte, passes]
  rfl

/-- A test that fails skips the next instruction. -/
theorem reaches_of_fails (fails : op.passes other word = false) {next : Instruction}
    (skipped : image.instructions[source.pc + 1]? = some next) (single : next.isConditional = false) :
    image.Reaches 1 source (source.goto (source.pc + 2)) := by
  have notCopy : op ≠ .set := by
    rintro rfl
    cases tests
  have behind := skipFrom_of_single skipped single
  refine reaches_of_execute fetched ?_
  intro machine _ stands
  have pc : machine.pc = source.pc + 1 := congrArg Point.pc stands
  rw [execute_of_ne_set _ notCopy, Machine.moved_goto stands]
  simp only [bind_apply, value_at readsSource stands, value_at readsDestination stands, tests,
    ↓reduceIte, fails, Bool.false_eq_true, skip, modify_apply, pc, behind]

end Tests

section Jumps

variable {name : String} {index : Nat}
  (fetched : image.instructions[source.pc]? = some (.basic .set (.register .pc) (.label name)))
  (defined : image.labelIndex? name = some index) (small : index < 65536)

include fetched defined small

/-- A jump to another instruction. -/
theorem reaches_jump (elsewhere : index ≠ source.pc) :
    image.Reaches 1 source (source.goto index) := by
  refine reaches_of_execute fetched ?_
  intro machine running stands
  have word : (UInt16.ofNat index).toNat = index := UInt16.toNat_ofNat_of_lt' small
  rw [Machine.moved_goto stands]
  simp [execute, bind_apply, Exec.value, defined, Exec.assign, Machine.jump, word, elsewhere]

/-- A jump of an instruction to itself halts. -/
theorem step_jump_self (same : index = source.pc) {machine : Machine} (running : machine.halted = false)
    (stands : machine.point = source) :
    image.step machine = .ok () { machine.moved source 1 with halted := true } := by
  subst stands same
  have word : (UInt16.ofNat machine.point.pc).toNat = machine.point.pc :=
    UInt16.toNat_ofNat_of_lt' small
  rw [image.step_eq running fetched]
  simp [execute, bind_apply, Exec.value, defined, Exec.assign, Machine.jump, word]
  simp [Machine.moved, Point.goto, Machine.setRegister]

end Jumps

end Image

end Dcpu
