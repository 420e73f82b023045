import Dcpu.Proofs.Machine.Halting
import Dcpu.Proofs.Machine.Loading

/-! # Steps that fail

A step fails over one of the operands of its instruction: a word is taken from an empty stack, or an operand
that cannot be read or written is. It fails before anything is written, so that all it leaves behind are the
words that it has taken from the stack.
-/

namespace Dcpu

open Effects

/-- Machines that differ at most in what was taken from their stacks. -/
def Machine.Popped (machine after : Machine) : Prop :=
  after = { machine with sp := after.sp, depth := after.depth }

theorem Machine.Popped.refl (machine : Machine) : machine.Popped machine := rfl

theorem Machine.Popped.trans {machine middle after : Machine} (first : machine.Popped middle)
    (second : middle.Popped after) : machine.Popped after := by
  rw [Popped, second, first]

theorem Machine.Popped.pc {machine after : Machine} (popped : machine.Popped after) : after.pc = machine.pc := by
  rw [popped]

namespace Image

/-- Why the operand of an instruction cannot be read, given the number of the instruction. -/
inductive ReadFault (image : Image) (pc : Nat) : Operand → MachineError → Prop where
  | underflow : ReadFault image pc .pop (.underflow pc)
  | pushRead : ReadFault image pc .push .pushRead
  | unknownLabel {name : String} : image.labelIndex? name = none →
      ReadFault image pc (.label name) (.unknownLabel name)

/-- Why an instruction fails: for an operand that it reads, or because its result goes where words are taken
from the stack. -/
inductive Fault (image : Image) (pc : Nat) (instruction : Instruction) : MachineError → Prop where
  | read {operand : Operand} {error : MachineError} : operand ∈ instruction.operands →
      image.ReadFault pc operand error → Fault image pc instruction error
  | popWritten {op : Opcode} {a : Operand} : instruction = .basic op .pop a →
      Fault image pc instruction .popWritten

section Parts

variable {image : Image} {machine after : Machine} {operand : Operand} {word : Word} {error : MachineError}

theorem value_popped (read : Exec.value image operand machine = .ok word after) : machine.Popped after := by
  obtain ⟨_, rfl⟩ | ⟨_, _, _, rfl⟩ := value_eq_ok read <;> rfl

/-- Reading an operand fails for one of the given reasons and changes nothing. -/
theorem value_eq_error (failed : Exec.value image operand machine = .error error after) :
    after = machine ∧ image.ReadFault (machine.pc - 1) operand error := by
  cases operand with
  | register | indirect | memory | address | literal => cases failed
  | push =>
    cases failed
    exact ⟨rfl, .pushRead⟩
  | label name =>
    cases defined : image.labelIndex? name with
    | some index => simp [Exec.value, defined] at failed
    | none =>
      simp only [Exec.value, defined, throw_apply] at failed
      cases failed
      exact ⟨rfl, .unknownLabel defined⟩
  | pop =>
    by_cases empty : machine.depth = 0
    · simp only [Exec.value, Exec.pop, bind_apply, get_apply, empty, ↓reduceIte, throw_apply] at failed
      cases failed
      exact ⟨rfl, .underflow⟩
    · rw [value_pop image empty] at failed
      cases failed

/-- Giving an operand a word fails only where words are taken from the stack. -/
theorem assign_eq_error {current : Nat} (failed : Exec.assign current operand word machine = .error error after) :
    after = machine ∧ operand = .pop ∧ error = .popWritten := by
  cases operand with
  | pop =>
    cases failed
    exact ⟨rfl, rfl, rfl⟩
  | register r => cases r <;> cases failed
  | _ => cases failed

end Parts

variable {image : Image} {machine after : Machine} {error : MachineError}

/-- An instruction fails for one of the given reasons, and then only the stack may have changed. -/
theorem execute_eq_error {current : Nat} {instruction : Instruction}
    (failed : image.execute current instruction machine = .error error after) :
    machine.Popped after ∧ image.Fault (machine.pc - 1) instruction error := by
  cases instruction with
  | jsr target =>
    obtain failed | ⟨_, _, _, impossible⟩ := bind_eq_error_iff.mp failed
    · obtain ⟨rfl, fault⟩ := value_eq_error failed
      exact ⟨.refl _, .read (List.mem_cons_self ..) fault⟩
    · cases impossible
  | basic op b a =>
    -- the source fails, or the rest behind it
    have sourceFails {middle : Machine} (failed : Exec.value image a machine = .error error middle) :
        machine.Popped middle ∧ image.Fault (machine.pc - 1) (.basic op b a) error := by
      obtain ⟨rfl, fault⟩ := value_eq_error failed
      exact ⟨.refl _, .read (by simp [Instruction.operands]) fault⟩
    have resultFails {middle : Machine} {result : Word} (popped : machine.Popped middle)
        (failed : Exec.assign current b result middle = .error error after) :
        machine.Popped after ∧ image.Fault (machine.pc - 1) (.basic op b a) error := by
      obtain ⟨rfl, rfl, rfl⟩ := assign_eq_error failed
      exact ⟨popped, .popWritten rfl⟩
    by_cases copies : op = .set
    · subst copies
      obtain failed | ⟨_, middle, read, failed⟩ := bind_eq_error_iff.mp failed
      · exact sourceFails failed
      · exact resultFails (value_popped read) failed
    · rw [execute_of_ne_set current copies] at failed
      obtain failed | ⟨source, middle, read, failed⟩ := bind_eq_error_iff.mp failed
      · exact sourceFails failed
      obtain failed | ⟨destination, further, readToo, failed⟩ := bind_eq_error_iff.mp failed
      · obtain ⟨rfl, fault⟩ := value_eq_error failed
        rw [(value_popped read).pc] at fault
        exact ⟨value_popped read, .read (List.mem_cons_self ..) fault⟩
      · split at failed
        · split at failed <;> cases failed
        · exact resultFails ((value_popped read).trans (value_popped readToo)) failed

/-- A step fails while it carries an instruction out, which is then counted and gone behind. Nothing else
but the stack may have changed. -/
theorem step_eq_error (failed : image.step machine = .error error after) :
    after = { machine with
      sp := after.sp, depth := after.depth, pc := machine.pc + 1, steps := machine.steps + 1 } ∧
    ∃ instruction, image.instructions[machine.pc]? = some instruction ∧
      image.Fault machine.pc instruction error := by
  by_cases halted : machine.halted = true
  · simp [step, bind_apply, halted] at failed
  · cases fetched : image.instructions[machine.pc]? with
    | none => simp [step, bind_apply, halted, fetched] at failed
    | some instruction =>
      rw [image.step_fetched machine (Bool.eq_false_iff.mpr halted) fetched] at failed
      obtain ⟨popped, fault⟩ := execute_eq_error failed
      exact ⟨popped, instruction, rfl, fault⟩

/-- In a loaded program no label is unknown. -/
theorem Fault.cases_of_load {listing : Listing} (loaded : load listing = .ok image) {pc : Nat}
    {instruction : Instruction} (fetched : image.instructions[pc]? = some instruction)
    (fault : image.Fault pc instruction error) :
    error = .underflow pc ∧ .pop ∈ instruction.operands ∨ error = .pushRead ∧ .push ∈ instruction.operands ∨
      error = .popWritten ∧ ∃ op a, instruction = .basic op .pop a := by
  cases fault with
  | popWritten goes => exact .inr (.inr ⟨rfl, _, _, goes⟩)
  | read member fault =>
    cases fault with
    | underflow => exact .inl ⟨rfl, member⟩
    | pushRead => exact .inr (.inl ⟨rfl, member⟩)
    | unknownLabel undefined =>
      have defined := labelIndex?_of_load loaded fetched member
      rw [undefined] at defined
      cases defined

end Image

end Dcpu
